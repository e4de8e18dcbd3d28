import RvBoard.Proofs.Plic.Candidates

/-!
# Claims and completions

A source that a context has claimed is in service until its number is written to a claim register or
the controller is reset, whichever context does so. Until then no context claims it again, and it
does not show in the pending registers.
-/

set_option autoImplicit false

namespace RvBoard.Plic

def numberOf (line : Line) : UInt32 :=
  UInt32.ofNat line.val

theorem toNat_numberOf (line : Line) : (numberOf line).toNat = line.val := by
  rw [numberOf, UInt32.toNat_ofNat']
  exact Nat.mod_eq_of_lt (by omega)

theorem numberOf_injective {a b : Line} (same : numberOf a = numberOf b) : a = b := by
  have numbers := congrArg UInt32.toNat same
  rw [toNat_numberOf, toNat_numberOf] at numbers
  exact Fin.ext numbers

theorem contextIndex_four {offset : Nat} {context : Fin 2} (above : contextOffset ≤ offset)
    (found : contextIndex? offset = some (context, 4)) : offset = contextOffset + contextStride * context.val + 4 := by
  rw [contextIndex?] at found
  split at found
  · obtain ⟨context, rest⟩ := Prod.mk.inj (Option.some.inj found)
    have divided := Nat.div_add_mod (offset - contextOffset) contextStride
    rw [← context]
    dsimp only
    omega
  · cases found

theorem toNat_claimOffset (context : Fin 2) :
    (Signals.claimOffset context).toNat = contextOffset + contextStride * context.val + 4 := by
  match context with
  | 0 => rfl
  | 1 => rfl

theorem foldl_bits (pending : Fin 32 → Bool) (bits : List (Fin 32)) (start : UInt32) (i : Fin 32) :
    (bits.foldl (fun word bit => if pending bit then word ||| (1 <<< UInt32.ofNat bit.val) else word) start).toBitVec.getLsbD
      i.val = true ↔ start.toBitVec.getLsbD i.val = true ∨ i ∈ bits ∧ pending i = true := by
  induction bits generalizing start with
  | nil => simp
  | cons bit bits ih =>
    rw [List.foldl_cons, ih]
    have added : ∀ word : UInt32, (word ||| (1 <<< UInt32.ofNat bit.val)).toBitVec.getLsbD i.val = true ↔
        word.toBitVec.getLsbD i.val = true ∨ i = bit := by
      intro word
      rw [UInt32.toBitVec_or, bit_twoPow, BitVec.getLsbD_or, BitVec.getLsbD_twoPow]
      simp only [Bool.or_eq_true, Bool.and_eq_true, decide_eq_true_eq, bit.isLt, true_and, Fin.ext_iff,
        @eq_comm _ bit.val i.val]
    cases set : pending bit with
    | false =>
      by_cases here : i = bit
      · simp [here, set]
      · simp [here]
    | true =>
      rw [if_pos rfl, added]
      by_cases here : i = bit
      · simp [here, set]
      · simp [here]

theorem line_bound (word : Fin 2) (i : Fin 32) : 32 * word.val + i.val < 64 := by
  omega

def lineOf (word : Fin 2) (i : Fin 32) : Line :=
  ⟨32 * word.val + i.val, line_bound word i⟩

theorem get_set {α : Type} (values : Vector α 64) (line other : Line) (value : α) :
    (values.set line.val value line.isLt).get other = if line = other then value else values.get other := by
  change (values.set line.val value line.isLt)[other.val] = _
  rw [Vector.getElem_set]
  simp only [Fin.ext_iff]
  rfl

theorem pendingWord_bit (plic : Plic) (word : Fin 2) (i : Fin 32) :
    (plic.pendingWord word).toBitVec.getLsbD i.val = true ↔ plic.isPending (lineOf word i) = true := by
  refine (foldl_bits (fun bit => plic.isPending (lineOf word bit)) (List.finRange 32) 0 i).trans ?_
  simp

namespace Signals

theorem load_claimOffset (signals : Signals) (context : Fin 2) :
    signals.load (claimOffset context) 2 = (.ok (signals.claim context).1.toUInt64, (signals.claim context).2) := by
  match context with
  | 0 => rfl
  | 1 => rfl

theorem store_claimOffset (signals : Signals) (context : Fin 2) (value : UInt64) :
    signals.store (claimOffset context) 2 value = (.ok (), signals.complete value.toUInt32) := by
  match context with
  | 0 => rfl
  | 1 => rfl

theorem load_apart (signals : Signals) {offset : UInt64} {size : Nat}
    (apart : ∀ context, ¬ (offset = claimOffset context ∧ size = 2)) : (signals.load offset size).2 = signals := by
  by_cases word : size = 2
  · simp only [load, word, if_true, read]
    split
    · rfl
    split
    · rfl
    split
    · split <;> rfl
    · rename_i above
      split
      · rfl
      · rename_i context found
        have place := contextIndex_four (Nat.not_lt.mp above) found
        rw [← toNat_claimOffset] at place
        exact absurd ⟨UInt64.toNat_inj.mp place, word⟩ (apart context)
      · rfl
  · simp only [load, word, if_false]

theorem setContext_inService (signals : Signals) (context : Fin 2) (value : Context) :
    (signals.setContext context value).plic.inService = signals.plic.inService := by
  rw [setContext, update_plic]

theorem store_apart (signals : Signals) {offset : UInt64} {size : Nat} (value : UInt64)
    (apart : ∀ context, ¬ (offset = claimOffset context ∧ size = 2)) :
    (signals.store offset size value).2.plic.inService = signals.plic.inService := by
  by_cases word : size = 2
  · rw [store, if_pos word]
    change (signals.write offset.toNat value.toUInt32).plic.inService = _
    unfold write
    extract_lets plic
    split
    · split
      · rw [update_plic]
      · rfl
    split
    · rfl
    split
    · split
      · exact setContext_inService signals _ _
      · rfl
    · rename_i above
      split
      · exact setContext_inService signals _ _
      · rename_i context found
        have place := contextIndex_four (Nat.not_lt.mp above) found
        rw [← toNat_claimOffset] at place
        exact absurd ⟨UInt64.toNat_inj.mp place, word⟩ (apart context)
      · rfl
  · rw [store, if_neg word]

theorem claim_inService (signals : Signals) (context : Fin 2) (line : Line) :
    (signals.claim context).2.plic.inService.get line = true ↔
      signals.plic.inService.get line = true ∨ signals.plic.candidate context = some line := by
  cases found : signals.plic.candidate context with
  | none => simp [claim, found]
  | some best => by_cases same : best = line <;> simp [claim, found, update_plic, get_set, same]

theorem complete_idle {signals : Signals} {number : UInt32}
    (idle : ∀ line, number = numberOf line → signals.plic.inService.get line = false) :
    signals.complete number = signals := by
  by_cases inRange : number.toNat < 64
  · have out : signals.plic.inService[number.toNat] = false := by
      refine idle ⟨number.toNat, inRange⟩ (UInt32.toNat_inj.mp ?_)
      rw [toNat_numberOf]
    simp [complete, inRange, out]
  · simp [complete, inRange]

theorem complete_inRange (signals : Signals) {number : UInt32} (inRange : number.toNat < 64) :
    (signals.complete number).plic.inService =
      if signals.plic.inService.get ⟨number.toNat, inRange⟩ then signals.plic.inService.set number.toNat false inRange
      else signals.plic.inService := by
  rw [complete, dif_pos inRange]
  by_cases busy : signals.plic.inService.get ⟨number.toNat, inRange⟩ = true
  · rw [if_pos busy]
    exact congrArg (fun next : Signals => next.plic.inService) (if_pos busy)
  · rw [if_neg busy]
    exact congrArg (fun next : Signals => next.plic.inService) (if_neg busy)

theorem complete_inService (signals : Signals) (number : UInt32) (line : Line) :
    (signals.complete number).plic.inService.get line = true ↔
      signals.plic.inService.get line = true ∧ number ≠ numberOf line := by
  by_cases inRange : number.toNat < 64
  · obtain ⟨here, named⟩ : ∃ here : Line, here = ⟨number.toNat, inRange⟩ := ⟨_, rfl⟩
    have number_eq : number = numberOf here := by
      apply UInt32.toNat_inj.mp
      rw [toNat_numberOf, named]
    have cleared := get_set signals.plic.inService here line false
    rw [complete_inRange signals inRange, ← named]
    subst named
    by_cases same : (⟨number.toNat, inRange⟩ : Line) = line
    · subst same
      cases busy : signals.plic.inService.get ⟨number.toNat, inRange⟩ <;> simp [busy, cleared, ← number_eq]
    · have other : number ≠ numberOf line := fun equal => same (numberOf_injective (number_eq.symm.trans equal))
      cases busy : signals.plic.inService.get ⟨number.toNat, inRange⟩ <;> simp [cleared, same, other]
  · have other : number ≠ numberOf line := by
      rintro rfl
      rw [toNat_numberOf] at inRange
      exact inRange line.isLt
    simp [complete, inRange, other]

-- What is done to the controller: lines are bound to devices, and all that reaches it.
inductive Act where
  | bind (number : UInt32) (owner : String)
  | event (event : Event)

namespace Act

abbrev claim (context : Fin 2) : Act :=
  .event (.load (claimOffset context) 2)

abbrev complete (context : Fin 2) (value : UInt64) : Act :=
  .event (.store (claimOffset context) 2 value)

end Act

def act (signals : Signals) : Act → Signals
  | .bind number owner =>
    match signals.plic.bind number owner with
    | .ok (_, plic) => { signals with plic := plic }
    | .error _ => signals
  | .event event => signals.after event

def enacted (acts : List Act) : Signals :=
  acts.foldl act {}

theorem enacted_append (acts : List Act) (last : Act) : enacted (acts ++ [last]) = (enacted acts).act last := by
  simp [enacted]

def asserted (acts : List Act) (line : Line) : Bool :=
  acts.foldl (fun level act =>
    match act with
    | .bind _ _ => level
    | .event event => driven line level event) false

inductive Lawful : List Act → Prop
  | start : Lawful []
  | act {acts : List Act} (before : Lawful acts) (act : Act)
      (bound : ∀ line level, act = .event (.drive line level) → ((enacted acts).plic.owners.get line).isSome = true) :
      Lawful (acts ++ [act])

-- A context that claims now is given the number of a source.
def Claims (acts : List Act) (context : Fin 2) (line : Line) : Prop :=
  line.val ≠ 0 ∧ ((enacted acts).load (claimOffset context) 2).1 = .ok (numberOf line).toUInt64

-- The source's number is written to a claim register, or the controller is reset.
inductive Releases (line : Line) : Act → Prop
  | completed (context : Fin 2) {value : UInt64} (named : value.toUInt32 = numberOf line) :
      Releases line (.complete context value)
  | reset : Releases line (.event .reset)
  | restart : Releases line (.event .restart)

-- Some context has claimed the source, and it has not been released since.
def InService (acts : List Act) (line : Line) : Prop :=
  ∃ before context between, acts = before ++ .claim context :: between ∧ Claims before context line ∧
    ∀ act ∈ between, ¬ Releases line act

theorem inService_append (acts : List Act) (last : Act) (line : Line) :
    InService (acts ++ [last]) line ↔
      (∃ context, last = .claim context ∧ Claims acts context line) ∨ InService acts line ∧ ¬ Releases line last := by
  constructor
  · rintro ⟨before, context, between, split, claims, unreleased⟩
    rcases between.eq_nil_or_concat with rfl | ⟨earlier, final, rfl⟩
    · obtain ⟨rfl, last⟩ := List.append_inj' split rfl
      exact .inl ⟨context, List.singleton_inj.mp last, claims⟩
    · rw [List.concat_eq_append, ← List.cons_append, ← List.append_assoc] at split
      obtain ⟨rfl, same⟩ := List.append_inj' split rfl
      rw [List.singleton_inj.mp same]
      exact .inr ⟨⟨before, context, earlier, rfl, claims, fun act member => unreleased act (by simp [member])⟩,
        unreleased final (by simp)⟩
  · rintro (⟨context, rfl, claims⟩ | ⟨⟨before, context, between, rfl, claims, unreleased⟩, kept⟩)
    · exact ⟨acts, context, [], rfl, claims, by simp⟩
    · refine ⟨before, context, between ++ [last], by simp, claims, fun act member => ?_⟩
      rcases List.mem_append.mp member with early | late
      · exact unreleased act early
      · rw [List.mem_singleton.mp late]
        exact kept

theorem claims_iff {acts : List Act} (silent : (enacted acts).plic.Silent) (context : Fin 2) (line : Line) :
    Claims acts context line ↔ (enacted acts).plic.candidate context = some line := by
  obtain ⟨zero, number⟩ := claim_number (enacted acts) context silent
  have best := candidate_best (enacted acts).plic context
  rw [Claims, load_claimOffset]
  constructor
  · rintro ⟨positive, given⟩
    have same : ((enacted acts).claim context).1 = numberOf line :=
      UInt32.toUInt64_inj.mp (Except.ok.inj given)
    cases found : (enacted acts).plic.candidate context with
    | none =>
      have none : numberOf line = numberOf 0 := same.symm.trans (zero.mpr found)
      exact absurd (congrArg Fin.val (numberOf_injective none)) positive
    | some other =>
      have named := number other found
      rw [same, toNat_numberOf] at named
      rw [Fin.ext named]
  · intro found
    rw [found] at best
    have named := number line found
    rw [← toNat_numberOf] at named
    exact ⟨fun none => best.2.1.nonzero silent (Fin.ext none), by rw [UInt32.toNat_inj.mp named]⟩

structure Kept (acts : List Act) : Prop where
  sound : Sound (enacted acts) (asserted acts)
  service : ∀ line, (enacted acts).plic.inService.get line = true ↔ InService acts line

theorem bind_owners (signals : Signals) (number : UInt32) (owner : String) :
    ∃ owners, signals.act (.bind number owner) = { signals with plic := { signals.plic with owners := owners } } ∧
      ∀ line, (signals.plic.owners.get line).isSome = true → (owners.get line).isSome = true := by
  cases bound : signals.plic.bind number owner with
  | error why => exact ⟨signals.plic.owners, by simp only [act, bound], fun line => id⟩
  | ok result =>
    obtain ⟨_, same⟩ := bind_unowned bound
    refine ⟨signals.plic.owners.set result.1 (some owner) result.1.isLt, ?_, fun line owned => ?_⟩
    · simp only [act, bound, same]
    rw [get_set]
    split
    · rfl
    · exact owned

theorem drive_inService (signals : Signals) (line : Line) (level : Bool) :
    (signals.drive line level).plic.inService = signals.plic.inService := by
  unfold drive
  cases signals.plic.level[line] == level <;> rfl

theorem claim_injective {a b : Fin 2} (same : Act.claim a = Act.claim b) : a = b := by
  have offsets : ∀ a b : Fin 2, claimOffset a = claimOffset b → a = b := by decide
  injection same with same
  injection same with same
  exact offsets a b same

theorem releases_complete {line : Line} {context : Fin 2} {value : UInt64} :
    Releases line (.complete context value) ↔ value.toUInt32 = numberOf line := by
  constructor
  · intro releases
    generalize same : Act.complete context value = act at releases
    cases releases with
    | completed other named =>
      injection same with same
      injection same with _ _ values
      exact values ▸ named
    | _ => cases same
  · exact .completed context

theorem act_inService {acts : List Act} (kept : Kept acts) (last : Act) (line : Line) :
    ((enacted acts).act last).plic.inService.get line = true ↔ InService (acts ++ [last]) line := by
  rw [inService_append, ← kept.service]
  cases last with
  | bind number owner =>
    obtain ⟨owners, same, _⟩ := (enacted acts).bind_owners number owner
    have unreleased : ¬ Releases line (.bind number owner) := nofun
    rw [same]
    simp [unreleased, Act.claim]
  | event event =>
    cases event with
    | drive other level =>
      have unreleased : ¬ Releases line (.event (.drive other level)) := nofun
      simp [act, after, drive_inService, unreleased, Act.claim]
    | load offset size =>
      have unreleased : ¬ Releases line (.event (.load offset size)) := nofun
      by_cases claiming : ∃ context, offset = claimOffset context ∧ size = 2
      · obtain ⟨context, rfl, rfl⟩ := claiming
        have claims : (∃ other, Act.claim context = .claim other ∧ Claims acts other line) ↔
            (enacted acts).plic.candidate context = some line := by
          rw [← claims_iff kept.sound.silent]
          exact ⟨fun ⟨_, same, claims⟩ => claim_injective same ▸ claims, fun claims => ⟨context, rfl, claims⟩⟩
        have claimed := (enacted acts).claim_inService context line
        rw [← claims, or_comm] at claimed
        simpa only [act, after, load_claimOffset, unreleased, not_false_iff, and_true] using claimed
      · have apart := (enacted acts).load_apart (fun context => not_exists.mp claiming context)
        have silent : ¬ ∃ context, Act.event (.load offset size) = .claim context ∧ Claims acts context line := by
          rintro ⟨context, same, _⟩
          injection same with same
          injection same with offset size
          exact claiming ⟨context, offset, size⟩
        simp only [act, after, apart, silent, unreleased, not_false_iff, and_true, false_or]
    | store offset size value =>
      have silent : ¬ ∃ context, Act.event (.store offset size value) = .claim context ∧ Claims acts context line := by
        rintro ⟨context, same, _⟩
        injection same with same
        cases same
      by_cases completing : ∃ context, offset = claimOffset context ∧ size = 2
      · obtain ⟨context, rfl, rfl⟩ := completing
        have completed := (enacted acts).complete_inService value.toUInt32 line
        rw [ne_eq, ← @releases_complete line context] at completed
        simpa only [act, after, store_claimOffset, silent, false_or] using completed
      · have apart := (enacted acts).store_apart value (fun context => not_exists.mp completing context)
        have unreleased : ¬ Releases line (.event (.store offset size value)) := by
          intro releases
          cases releases with
          | completed context named => exact completing ⟨context, rfl, rfl⟩
        simp only [act, after, apart, silent, unreleased, not_false_iff, and_true, false_or]
    | reset =>
      have low : (enacted acts).reset.plic.inService.get line = false := Vector.getElem_replicate line.isLt
      simp [act, after, low, Releases.reset, Act.claim]
    | restart =>
      have low : ({ enacted acts with pins := {} : Signals }.reset).plic.inService.get line = false :=
        Vector.getElem_replicate line.isLt
      simp [act, after, low, Releases.restart, Act.claim]

theorem act_sound {acts : List Act} (sound : Sound (enacted acts) (asserted acts)) (last : Act) :
    Sound ((enacted acts).act last) (asserted (acts ++ [last])) := by
  cases last with
  | bind number owner =>
    have same : asserted (acts ++ [.bind number owner]) = asserted acts := by
      funext line
      simp [asserted]
    obtain ⟨owners, bound, _⟩ := (enacted acts).bind_owners number owner
    rw [same, bound]
    exact ⟨sound.truthful, sound.silent, sound.level⟩
  | event event =>
    have driven : asserted (acts ++ [.event event]) = fun line => driven line (asserted acts line) event := by
      funext line
      simp [asserted]
    rw [driven]
    exact sound.after event

theorem Kept.start : Kept [] := by
  refine ⟨Sound.start, fun line => ?_⟩
  have idle : (enacted []).plic.inService.get line = false := Vector.getElem_replicate line.isLt
  simp [idle, InService]

theorem Kept.act {acts : List Act} (kept : Kept acts) (last : Act) : Kept (acts ++ [last]) := by
  have sound := act_sound kept.sound last
  have service := act_inService kept last
  rw [← enacted_append] at sound service
  exact ⟨sound, service⟩

theorem Kept.append {acts : List Act} (kept : Kept acts) (more : List Act) : Kept (acts ++ more) := by
  induction more generalizing acts with
  | nil =>
    rw [List.append_nil]
    exact kept
  | cons next more ih =>
    rw [List.append_cons]
    exact ih (kept.act next)

theorem after_owners (signals : Signals) (event : Event) : (signals.after event).plic.owners = signals.plic.owners := by
  cases event with
  | drive line level => exact drive_owners signals line level
  | load offset size => exact (load_tame signals offset size).owners
  | store offset size value => exact (store_tame signals offset size value).owners
  | reset => rfl
  | restart => rfl

theorem Lawful.bound {acts : List Act} (lawful : Lawful acts) {line : Line} (high : asserted acts line = true) :
    ((enacted acts).plic.owners.get line).isSome = true := by
  induction lawful with
  | start => cases high
  | @act acts before last bound ih =>
    rw [enacted_append]
    cases last with
    | bind number owner =>
      obtain ⟨owners, same, kept⟩ := (enacted acts).bind_owners number owner
      rw [same]
      refine kept line (ih ?_)
      simpa [asserted] using high
    | event event =>
      have owners : ((enacted acts).act (.event event)).plic.owners = (enacted acts).plic.owners :=
        after_owners _ event
      rw [owners]
      by_cases drives : ∃ level, event = .drive line level
      · obtain ⟨level, rfl⟩ := drives
        exact bound line level rfl
      · refine ih ?_
        have same : driven line (asserted acts line) event = asserted acts line := by
          cases event with
          | drive other level =>
            have apart : other ≠ line := by
              rintro rfl
              exact drives ⟨level, rfl⟩
            exact if_neg apart
          | _ => rfl
        rw [← same]
        simpa [asserted] using high

def pendingAt (word : Fin 2) : UInt64 :=
  UInt64.ofNat (pendingOffset + 4 * word.val)

theorem load_pending (signals : Signals) (word : Fin 2) :
    signals.load (pendingAt word) 2 = (.ok (signals.plic.pendingWord word).toUInt64, signals) := by
  have place : (pendingAt word).toNat = pendingOffset + 4 * word.val := by
    match word with
    | 0 => rfl
    | 1 => rfl
  have above : ¬ pendingOffset + 4 * word.val < pendingOffset := by omega
  have below : pendingOffset + 4 * word.val < enableOffset := by
    simp only [pendingOffset, enableOffset]
    omega
  have index : (pendingOffset + 4 * word.val - pendingOffset) / 4 = word.val := by omega
  simp only [load, read, place, above, below, index, if_true, if_false, word.isLt, dite_true]

theorem isPending_iff {acts : List Act} (kept : Kept acts) (line : Line) :
    (enacted acts).plic.isPending line = true ↔ asserted acts line = true ∧ ¬ InService acts line := by
  rw [← kept.service, ← kept.sound.level]
  simp [isPending, Vector.get, Fin.getElem_fin]

/-- At any point of a history in which devices drive the lines that are bound to them, a context that claims gets 0, or a
bound source that is asserted, enabled for the context and not in service. Between two claims of one source its number was
written to a claim register, or the controller reset. A source whose service is completed is pending if its line is
asserted. The pending registers show the asserted sources that are not in service, and completing any other number than
that of a source in service changes nothing. -/
theorem claims_exclusive {acts : List Act} (lawful : Lawful acts) :
    (∀ context, ∃ number : UInt32, ((enacted acts).load (claimOffset context) 2).1 = .ok number.toUInt64 ∧
      (number ≠ 0 → ∃ line, number = numberOf line ∧ ((enacted acts).plic.owners.get line).isSome = true ∧
        asserted acts line = true ∧ (enacted acts).plic.Deliverable context line ∧ ¬ InService acts line)) ∧
    (∀ before context between other line, acts = before ++ .claim context :: between → Claims before context line →
      Claims acts other line → ∃ act ∈ between, Releases line act) ∧
    (∀ context value line, InService acts line → value.toUInt32 = numberOf line →
      ((enacted (acts ++ [.complete context value])).plic.isPending line = true ↔ asserted acts line = true)) ∧
    (∀ word, ∃ bits : UInt32, (enacted acts).load (pendingAt word) 2 = (.ok bits.toUInt64, enacted acts) ∧
      ∀ i : Fin 32, bits.toBitVec.getLsbD i.val = true ↔
        asserted acts (lineOf word i) = true ∧ ¬ InService acts (lineOf word i)) ∧
    (∀ context value, (∀ line, InService acts line → value.toUInt32 ≠ numberOf line) →
      (enacted acts).store (claimOffset context) 2 value = (.ok (), enacted acts)) := by
  have kept : Kept acts := Kept.start.append acts
  have idle {context : Fin 2} {line : Line} (claims : Claims acts context line) : ¬ InService acts line := by
    have best := candidate_best (enacted acts).plic context
    rw [(claims_iff kept.sound.silent context line).mp claims] at best
    rw [← kept.service, best.2.1.idle]
    exact Bool.false_ne_true
  refine ⟨fun context => ?_, ?_, ?_, fun word => ?_, ?_⟩
  · obtain ⟨zero, number⟩ := claim_number (enacted acts) context kept.sound.silent
    have best := candidate_best (enacted acts).plic context
    refine ⟨_, load_claim _ context, fun some => ?_⟩
    cases found : (enacted acts).plic.candidate context with
    | none => exact absurd (zero.mpr found) some
    | some line =>
      rw [found] at best
      have high : asserted acts line = true := (kept.sound.level line).symm.trans best.2.1.asserted
      refine ⟨line, ?_, lawful.bound high, high, best.2.1, idle ((claims_iff kept.sound.silent context line).mpr found)⟩
      apply UInt32.toNat_inj.mp
      rw [number line found, toNat_numberOf]
  · rintro before context between other line rfl first second
    refine Classical.byContradiction fun unreleased => ?_
    exact idle second ⟨before, context, between, rfl, first, fun act member releases => unreleased ⟨act, member, releases⟩⟩
  · intro context value line service named
    have next := kept.act (.complete context value)
    rw [isPending_iff next, inService_append]
    have released : ¬ (InService acts line ∧ ¬ Releases line (.complete context value)) :=
      fun still => still.2 (.completed context named)
    simp [released, asserted, driven, Act.claim]
  · refine ⟨_, load_pending _ word, fun i => ?_⟩
    rw [pendingWord_bit, isPending_iff kept]
  · intro context value apart
    rw [store_claimOffset, complete_idle]
    intro line named
    have out : ¬ InService acts line := fun service => apart line service named
    rw [← kept.service] at out
    exact Bool.eq_false_iff.mpr out

def ringing : List Act :=
  [.bind 63 "uart", .event (.store 0x2004 2 0x80000000), .event (.store 0x2084 2 0x80000000),
    .event (.drive (Fin.last 63) true)]

theorem lawful_ringing : Lawful (ringing ++ [.claim firstWord]) := by
  have quiet {acts : List Act} (before : Lawful acts) (act : Act) (still : ∀ line level, act ≠ .event (.drive line level)) :
      Lawful (acts ++ [act]) :=
    before.act act fun line level same => absurd same (still line level)
  have bound := quiet .start (.bind 63 "uart") nofun
  have machine := quiet bound (.event (.store 0x2004 2 0x80000000)) nofun
  have enabled := quiet machine (.event (.store 0x2084 2 0x80000000)) nofun
  have driven := enabled.act (.event (.drive (Fin.last 63) true)) fun line level same => by
    cases same
    decide +kernel
  exact quiet driven (.claim firstWord) nofun

theorem claims_ringing : Claims ringing firstWord (Fin.last 63) := by
  have kept : Kept ringing := Kept.start.append ringing
  rw [claims_iff kept.sound.silent]
  decide +kernel

theorem claims_exclusive_shared :
    Lawful (ringing ++ [.claim firstWord]) ∧ InService (ringing ++ [.claim firstWord]) (Fin.last 63) ∧
      (∀ other, ¬ Claims (ringing ++ [.claim firstWord]) other (Fin.last 63)) ∧
      (enacted (ringing ++ [.claim firstWord] ++ [.complete supervisor 63])).plic.isPending (Fin.last 63) = true := by
  have service : InService (ringing ++ [.claim firstWord]) (Fin.last 63) :=
    ⟨ringing, firstWord, [], rfl, claims_ringing, nofun⟩
  obtain ⟨_, apart, completed, _⟩ := claims_exclusive lawful_ringing
  refine ⟨lawful_ringing, service, fun other again => ?_, ?_⟩
  · obtain ⟨_, member, _⟩ := apart ringing firstWord [] other (Fin.last 63) rfl claims_ringing again
    cases member
  · exact (completed supervisor 63 (Fin.last 63) service rfl).mpr rfl

end Signals

end RvBoard.Plic
