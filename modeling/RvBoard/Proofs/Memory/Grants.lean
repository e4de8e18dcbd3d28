import RvBoard.Proofs.Memory.Access
import RvBoard.Proofs.Memory.Layout
import RvBoard.Proofs.Memory.Transparency

/-!
# Pages that user mode may use

A translation made for user mode leads into a page that the page table grants to user mode for that
very use, be it walked for or cached. A cached page is granted by the walk that it was cached by, or
by the page table that it agreed with.
-/

set_option autoImplicit false

namespace RvBoard

open Bus

namespace Sv39

structure Maps (bus : Bus) (root vaddr entry : UInt64) (leaf : Pte) (level : Nat) : Prop where
  canonical : isCanonical vaddr = true
  leads : ∃ next, Leads vaddr bus levels root next entry leaf level
  straight : leaf.address &&& offsetMask level = 0

-- The page table grants a page to user mode for one kind of access: bit 4 of the leaf opens it to user
-- mode at all.
inductive Grants (bus : Bus) (root : UInt64) (mxr : Bool) (vaddr : UInt64) (kind : AccessKind) : UInt64 → Prop
  | leaf {entry : UInt64} {leaf : Pte} {level : Nat} (maps : Maps bus root vaddr entry leaf level)
      (user : leaf.bit 4 = true) (opens : leaf.opens mxr kind = true) :
      Grants bus root mxr vaddr kind (translationOf leaf vaddr level).page

-- The page table leads to this page with these rights.
def Gives (bus : Bus) (root vaddr : UInt64) (translation : Translation) : Prop :=
  ∃ entry leaf level, Maps bus root vaddr entry leaf level ∧ translation.page = (translationOf leaf vaddr level).page ∧
    PteFlags.rights translation.flags = PteFlags.rights leaf.flags

theorem Maps.page {bus : Bus} {root a b entry : UInt64} {leaf : Pte} {level : Nat} (maps : Maps bus root a entry leaf level)
    (same : Tlb.pageOf a = Tlb.pageOf b) : Maps bus root b entry leaf level := by
  obtain ⟨next, leads⟩ := maps.leads
  exact ⟨(isCanonical_page same).symm.trans maps.canonical, ⟨next, leads_page same (Nat.le_refl _) leads⟩, maps.straight⟩

theorem Gives.page {bus : Bus} {root a b : UInt64} {translation : Translation} (gives : Gives bus root a translation)
    (same : Tlb.pageOf a = Tlb.pageOf b) : Gives bus root b translation := by
  obtain ⟨entry, leaf, level, maps, page, rights⟩ := gives
  exact ⟨entry, leaf, level, maps.page same, page.trans (by rw [translationOf_page same]), rights⟩

theorem Grants.start {bus : Bus} {root vaddr page : UInt64} {mxr : Bool} {kind : AccessKind}
    (grants : Grants bus root mxr vaddr kind page) : page.toNat % 4096 = 0 := by
  cases grants with | @leaf entry leaf level maps user opens =>
  rw [← toNat_pageMask, translationOf_low]
  rfl

theorem user_permits {leaf : Pte} {kind : AccessKind} {context : AccessContext} (user : context.privilege = .user)
    (permitted : leaf.flags.permits kind context = true) : leaf.bit 4 = true ∧ leaf.opens context.mxr kind = true := by
  obtain ⟨allowed, admitted⟩ := Bool.and_eq_true_iff.mp permitted
  unfold PteFlags.admits at admitted
  rw [user] at admitted
  exact ⟨leaf.has_user.symm.trans admitted, (leaf.allows_opens kind context.mxr).symm.trans allowed⟩

theorem Gives.grants {bus : Bus} {root vaddr : UInt64} {translation : Translation} {kind : AccessKind}
    {context : AccessContext} (gives : Gives bus root vaddr translation) (user : context.privilege = .user)
    (permitted : translation.flags.permits kind context = true) :
    Grants bus root context.mxr vaddr kind translation.page := by
  obtain ⟨entry, leaf, level, maps, page, rights⟩ := gives
  obtain ⟨own, opens⟩ := user_permits user ((PteFlags.permits_congr rights kind context).symm.trans permitted)
  rw [page]
  exact .leaf maps own opens

theorem walk_gives {root vaddr : UInt64} {kind : AccessKind} {context : AccessContext} {bus next : Bus}
    {translation : Translation} (walked : walk root vaddr kind context bus = .ok translation next) :
    Gives bus root vaddr translation ∧ translation.flags.permits kind context = true := by
  obtain ⟨canonical, mid, entry, leaf, level, leads, usable, rfl, _⟩ := walk_ok_iff.mp walked
  have rights := Pte.rights_mark leaf kind
  refine ⟨⟨entry, leaf, level, ⟨canonical, ⟨mid, leads⟩, usable.straight⟩, ?_, rights⟩, ?_⟩
  · rw [translationOf, translationOf, Pte.address_mark]
  · exact (PteFlags.permits_congr rights kind context).trans usable.permitted

end Sv39

namespace Memory

open Sv39

theorem toNat_inPage {page : UInt64} (start : page.toNat % 4096 = 0) (vaddr : UInt64) :
    (inPage page vaddr).toNat = page.toNat + vaddr.toNat % 4096 := by
  have whole : page.toNat = 2 ^ 12 * (page.toNat / 4096) := by omega
  have small : vaddr.toNat % 4096 < 2 ^ 12 := Nat.mod_lt _ (by decide)
  rw [inPage, UInt64.toNat_or, toNat_pageMask, whole, ← Nat.two_pow_add_eq_or_of_lt small, ← whole]

theorem inPage_inside {page vaddr : UInt64} {size : Nat} (start : page.toNat % 4096 = 0) (small : size ≤ 3)
    (fair : aligned size vaddr = true) :
    page.toNat ≤ (inPage page vaddr).toNat ∧ (inPage page vaddr).toNat + byteCount size ≤ page.toNat + 4096 := by
  have whole : vaddr.toNat % byteCount size = 0 := eq_of_beq fair
  rw [toNat_inPage start]
  have counts : ∀ size, size ≤ 3 → byteCount size ∈ [1, 2, 4, 8] := by decide
  have count := counts size small
  simp only [List.mem_cons, List.not_mem_nil, or_false] at count
  rcases count with count | count | count | count <;> rw [count] at whole ⊢ <;> omega

-- Every cached page is what the page table gives for its addresses.
def Agrees (memory : Memory) : Prop :=
  ∀ cached : TlbEntry, some cached ∈ memory.tlb.entries →
    ∀ vaddr, Tlb.pageOf vaddr = cached.vpn → Gives memory.bus memory.root vaddr cached.translation

def Vouched (moments : List Bus) (memory : Memory) : Prop :=
  ∀ cached : TlbEntry, some cached ∈ memory.tlb.entries →
    ∀ vaddr, Tlb.pageOf vaddr = cached.vpn → ∃ moment ∈ moments, Gives moment memory.root vaddr cached.translation

theorem agrees_empty {memory : Memory} (flushed : memory.tlb = Tlb.empty) : Agrees memory := by
  intro cached found
  rw [flushed] at found
  cases (Vector.mem_replicate.mp found).2

theorem Agrees.vouched {memory : Memory} (agrees : Agrees memory) : Vouched [memory.bus] memory :=
  fun cached found vaddr same => ⟨memory.bus, List.mem_singleton_self _, agrees cached found vaddr same⟩

theorem Vouched.insert {moments : List Bus} {memory : Memory} {vaddr : UInt64} {translation : Translation} (next : Bus)
    (vouched : Vouched moments memory) (present : memory.bus ∈ moments)
    (gives : Gives memory.bus memory.root vaddr translation) :
    Vouched moments { memory with bus := next, tlb := memory.tlb.insert vaddr translation } := by
  intro cached found other same
  rcases mem_insert found with kept | rfl
  · exact vouched cached kept other same
  · exact ⟨memory.bus, present, gives.page same.symm⟩

inductive Translates (vaddr : UInt64) (kind : AccessKind) (context : AccessContext) (memory : Memory) :
    UInt64 → Memory → Prop
  | cached {found : Translation} (hit : memory.tlb.hit? vaddr kind context = some found) :
      Translates vaddr kind context memory (inPage found.page vaddr) memory
  | walked {found : Translation} {next : Bus} (missed : memory.tlb.hit? vaddr kind context = none)
      (done : walk memory.root vaddr kind context memory.bus = .ok found next) :
      Translates vaddr kind context memory (inPage found.page vaddr)
        { memory with bus := next, tlb := memory.tlb.insert vaddr found }

section Translation

variable {vaddr paddr : UInt64} {kind : AccessKind} {context : AccessContext} {memory next : Memory}
  (paged : memory.mode = .sv39) (user : context.privilege = .user)

include paged user

theorem translate_ok_iff : translate vaddr kind context memory = .ok paddr next ↔
    Translates vaddr kind context memory paddr next := by
  have on : ¬ (memory.mode = .bare ∨ context.privilege = .machine) := by
    rw [paged, user]
    simp
  unfold translate
  rw [if_neg on]
  constructor
  · intro translated
    cases hit : memory.tlb.hit? vaddr kind context with
    | some found =>
      rw [hit] at translated
      cases translated
      exact .cached hit
    | none =>
      rw [hit] at translated
      obtain ⟨bus, tlb, mode, root⟩ := memory
      cases done : walk root vaddr kind context bus with
      | ok found last =>
        simp only [walkAndCache, done] at translated
        cases translated
        exact .walked hit done
      | error fault last =>
        simp only [walkAndCache, done] at translated
        cases translated
  · intro translates
    cases translates with
    | cached hit => rw [hit]
    | walked missed done =>
      obtain ⟨bus, tlb, mode, root⟩ := memory
      rw [missed]
      simp only [walkAndCache, done]

theorem translate_granted {moments : List Bus} (vouched : Vouched moments memory) (present : memory.bus ∈ moments)
    (translated : translate vaddr kind context memory = .ok paddr next) :
    ∃ page, paddr = inPage page vaddr ∧
      (∃ moment ∈ moments, Grants moment memory.root context.mxr vaddr kind page) ∧ Vouched moments next := by
  cases (translate_ok_iff paged user).mp translated with
  | @cached found hit =>
    obtain ⟨usable, slot, cached, found, vpn, rfl⟩ := hit_cached hit
    obtain ⟨moment, member, gives⟩ := vouched cached (found ▸ Vector.getElem_mem slot.isLt) vaddr vpn.symm
    have permitted := (Bool.and_eq_true_iff.mp usable).1
    exact ⟨_, rfl, ⟨moment, member, gives.grants user permitted⟩, vouched⟩
  | @walked found last missed done =>
    obtain ⟨gives, permitted⟩ := walk_gives done
    exact ⟨_, rfl, ⟨memory.bus, present, gives.grants user permitted⟩, vouched.insert last present gives⟩

end Translation

end Memory

end RvBoard
