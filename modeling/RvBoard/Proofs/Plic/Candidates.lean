import RvBoard.Proofs.Plic.Pins

/-!
# Candidates of the interrupt controller

Whatever is driven, read, written and reset, a context's pin is high exactly while the context has
a source that may interrupt it, and a claim takes the best of them.
-/

set_option autoImplicit false

namespace RvBoard.Plic

def firstWord : Fin 2 :=
  ⟨0, Nat.zero_lt_two⟩

def wordOf (line : Line) : Fin 2 :=
  if line.val < 32 then firstWord else Fin.last 1

-- A source that may interrupt a context, as the registers have it.
structure Deliverable (plic : Plic) (context : Fin 2) (line : Line) : Prop where
  asserted : plic.level.get line = true
  idle : plic.inService.get line = false
  enabled : ((plic.contexts.get context).enable.get (wordOf line)).toBitVec.getLsbD (line.val % 32) = true
  urgent : (plic.contexts.get context).threshold < plic.priority.get line

-- Greater priority goes first, and the lower number on ties.
def Outranks (plic : Plic) (line other : Line) : Prop :=
  plic.priority.get other < plic.priority.get line ∨ plic.priority.get other = plic.priority.get line ∧ line ≤ other

def Best (plic : Plic) (context : Fin 2) (lines : List Line) : Option Line → Prop
  | none => ∀ other ∈ lines, ¬ plic.Deliverable context other
  | some line =>
    line ∈ lines ∧ plic.Deliverable context line ∧ ∀ other ∈ lines, plic.Deliverable context other → plic.Outranks line other

theorem bit_twoPow : ∀ k : Fin 32, ((1 : UInt32) <<< UInt32.ofNat k.val).toBitVec = BitVec.twoPow 32 k.val := by
  decide

theorem masked_bit (word : UInt32) (k : Fin 32) :
    (word &&& (1 <<< UInt32.ofNat k.val) != 0) = word.toBitVec.getLsbD k.val := by
  have masked : (word &&& (1 <<< UInt32.ofNat k.val)).toBitVec =
      if word.toBitVec.getLsbD k.val then BitVec.twoPow 32 k.val else 0 := by
    rw [UInt32.toBitVec_and, bit_twoPow, BitVec.and_twoPow]
    rfl
  cases bit : word.toBitVec.getLsbD k.val with
  | true =>
    rw [bit, if_pos rfl] at masked
    refine bne_iff_ne.mpr fun zero => ?_
    rw [zero] at masked
    have here := congrArg (fun bits => bits.getLsbD k.val) masked
    simp at here
  | false =>
    rw [bit, if_neg Bool.false_ne_true] at masked
    rw [UInt32.toBitVec_inj.mp masked]
    rfl

theorem enabled_eq (context : Context) (line : Line) :
    context.enabled line = (context.enable.get (wordOf line)).toBitVec.getLsbD (line.val % 32) := by
  have word : (if line.val < 32 then context.enable[0] else context.enable[1]) = context.enable.get (wordOf line) := by
    unfold wordOf
    by_cases low : line.val < 32
    · rw [if_pos low, if_pos low]
      rfl
    · rw [if_neg low, if_neg low]
      rfl
  unfold Context.enabled
  rw [word]
  exact masked_bit _ ⟨line.val % 32, Nat.mod_lt _ (by decide)⟩

theorem deliverable_iff (plic : Plic) (context : Fin 2) (line : Line) :
    plic.deliverable context line = true ↔ plic.Deliverable context line := by
  unfold deliverable isPending
  simp only [Bool.and_eq_true, Bool.not_eq_true', decide_eq_true_eq, enabled_eq]
  constructor
  · rintro ⟨⟨⟨asserted, idle⟩, enabled⟩, urgent⟩
    exact ⟨asserted, idle, enabled, urgent⟩
  · rintro ⟨asserted, idle, enabled, urgent⟩
    exact ⟨⟨⟨asserted, idle⟩, enabled⟩, urgent⟩

theorem better_cases (plic : Plic) (best : Option Line) (line : Line) :
    (plic.better best line = some line ∧ ∀ other ∈ best, plic.priority.get other < plic.priority.get line) ∨
      ∃ other, best = some other ∧ plic.better best line = best ∧ plic.priority.get line ≤ plic.priority.get other := by
  unfold better
  cases best with
  | none => exact .inl ⟨rfl, fun other member => by cases member⟩
  | some other =>
    by_cases greater : plic.priority.get other < plic.priority.get line
    · refine .inl ⟨if_pos greater, fun same member => ?_⟩
      cases member
      exact greater
    · exact .inr ⟨other, rfl, if_neg greater, UInt32.not_lt.mp greater⟩

theorem Outranks.refl (plic : Plic) (line : Line) : plic.Outranks line line :=
  .inr ⟨rfl, Fin.le_refl line⟩

theorem Outranks.trans {plic : Plic} {a b c : Line} (first : plic.Outranks a b) (second : plic.Outranks b c) :
    plic.Outranks a c := by
  rcases first with above | ⟨equal, low⟩
  · rcases second with higher | ⟨same, _⟩
    · exact .inl (UInt32.lt_trans higher above)
    · exact .inl (same ▸ above)
  · rcases second with higher | ⟨same, lower⟩
    · exact .inl (equal ▸ higher)
    · exact .inr ⟨same.trans equal, Fin.le_trans low lower⟩

theorem outranks_of_earlier {plic : Plic} {line other : Line} (earlier : line < other)
    (high : plic.priority.get other ≤ plic.priority.get line) : plic.Outranks line other := by
  rcases UInt32.lt_or_eq_of_le high with less | equal
  · exact .inl less
  · exact .inr ⟨equal, Fin.le_of_lt earlier⟩

theorem Best.step {plic : Plic} {context : Fin 2} {seen : List Line} {best : Option Line} {line : Line}
    (holds : plic.Best context seen best) (above : ∀ other ∈ seen, other < line) :
    plic.Best context (seen ++ [line])
      (if plic.deliverable context line then plic.better best line else best) := by
  have last : line ∈ seen ++ [line] := List.mem_append_right seen (List.mem_singleton_self line)
  cases fits : plic.deliverable context line with
  | false =>
    have unfit : ¬ plic.Deliverable context line := by
      rw [← deliverable_iff, fits]
      exact Bool.false_ne_true
    rw [if_neg Bool.false_ne_true]
    cases best with
    | none =>
      intro other member
      rcases List.mem_append.mp member with before | here
      · exact holds other before
      · exact List.mem_singleton.mp here ▸ unfit
    | some first =>
      obtain ⟨present, deliverable, outranks⟩ := holds
      refine ⟨List.mem_append_left _ present, deliverable, fun other member fit => ?_⟩
      rcases List.mem_append.mp member with before | here
      · exact outranks other before fit
      · exact absurd (List.mem_singleton.mp here ▸ fit) unfit
  | true =>
    have fit := (deliverable_iff plic context line).mp fits
    rw [if_pos rfl]
    rcases better_cases plic best line with ⟨taken, greater⟩ | ⟨first, found, kept, high⟩
    · rw [taken]
      refine ⟨last, fit, fun other member others => ?_⟩
      rcases List.mem_append.mp member with before | here
      · cases best with
        | none => exact absurd others (holds other before)
        | some first => exact Outranks.trans (.inl (greater first rfl)) (holds.2.2 other before others)
      · rw [List.mem_singleton.mp here]
        exact .refl plic line
    · rw [kept, found]
      rw [found] at holds
      obtain ⟨present, deliverable, outranks⟩ := holds
      refine ⟨List.mem_append_left _ present, deliverable, fun other member others => ?_⟩
      rcases List.mem_append.mp member with before | here
      · exact outranks other before others
      · rw [List.mem_singleton.mp here]
        exact outranks_of_earlier (above first present) high

theorem foldl_best {plic : Plic} {context : Fin 2} (rest : List Line) {seen : List Line} {best : Option Line}
    (ascending : (seen ++ rest).Pairwise (· < ·)) (holds : plic.Best context seen best) :
    plic.Best context (seen ++ rest)
      (rest.foldl (fun best line => if plic.deliverable context line then plic.better best line else best) best) := by
  induction rest generalizing seen best with
  | nil =>
    rw [List.append_nil]
    exact holds
  | cons line rest ih =>
    rw [List.append_cons seen line rest] at ascending ⊢
    have above : ∀ other ∈ seen, other < line := by
      obtain ⟨front, _, _⟩ := List.pairwise_append.mp ascending
      intro other member
      exact (List.pairwise_append.mp front).2.2 other member line (List.mem_singleton_self line)
    exact ih ascending (holds.step above)

theorem candidate_best (plic : Plic) (context : Fin 2) : plic.Best context (List.finRange 64) (plic.candidate context) := by
  have ascending : ([] ++ List.finRange 64 : List Line).Pairwise (· < ·) := List.pairwise_lt_finRange 64
  have start : plic.Best context [] none := fun other member => by cases member
  exact foldl_best (List.finRange 64) ascending start

theorem candidate_isSome (plic : Plic) (context : Fin 2) :
    (plic.candidate context).isSome = true ↔ ∃ line, plic.Deliverable context line := by
  have best := candidate_best plic context
  cases found : plic.candidate context with
  | none =>
    rw [found] at best
    simp only [Option.isSome_none, Bool.false_eq_true, false_iff, not_exists]
    exact fun line => best line (List.mem_finRange line)
  | some line =>
    rw [found] at best
    exact ⟨fun _ => ⟨line, best.2.1⟩, fun _ => rfl⟩

theorem candidate_low {plic : Plic} (context : Fin 2) (low : ∀ line, plic.level.get line = false) :
    plic.candidate context = none := by
  have best := candidate_best plic context
  cases found : plic.candidate context with
  | none => rfl
  | some line =>
    rw [found] at best
    exact absurd (best.2.1.asserted.symm.trans (low line)) Bool.true_eq_false.mp

def Silent (plic : Plic) : Prop :=
  ∀ context, ((plic.contexts.get context).enable.get firstWord).toBitVec.getLsbD 0 = false

structure Tame (before after : Plic) : Prop where
  level : after.level = before.level
  owners : after.owners = before.owners
  silent : before.Silent → after.Silent

theorem Tame.refl (plic : Plic) : Tame plic plic :=
  ⟨rfl, rfl, id⟩

theorem Deliverable.nonzero {plic : Plic} {context : Fin 2} {line : Line} (fit : plic.Deliverable context line)
    (silent : plic.Silent) : line ≠ 0 := by
  rintro rfl
  exact Bool.false_ne_true ((silent context).symm.trans fit.enabled)

theorem silent_start : ({} : Plic).Silent
  | 0 => rfl
  | 1 => rfl

theorem setContext_silent {plic : Plic} (context : Fin 2) {value : Context}
    (off : (value.enable.get firstWord).toBitVec.getLsbD 0 = false) (silent : plic.Silent) :
    { plic with contexts := plic.contexts.set context value context.isLt }.Silent := by
  intro other
  have kept := silent other
  by_cases same : context.val = other.val
  · have here : (plic.contexts.set context value)[other.val] = value := by
      rw [Vector.getElem_set, if_pos same]
    exact (congrArg (fun found => (found.enable.get firstWord).toBitVec.getLsbD 0) here).trans off
  · have there : (plic.contexts.set context value)[other.val] = plic.contexts[other.val] := by
      rw [Vector.getElem_set, if_neg same]
    exact (congrArg (fun found => (found.enable.get firstWord).toBitVec.getLsbD 0) there).trans kept

theorem enable_off (enable : Vector UInt32 2) (word : Fin 2) (value : UInt32)
    (off : (enable.get firstWord).toBitVec.getLsbD 0 = false) :
    ((enable.set word (if word = firstWord then value &&& 0xfffffffe else value) word.isLt).get firstWord).toBitVec.getLsbD 0
      = false := by
  match word with
  | 0 =>
    change ((enable.set 0 (value &&& 0xfffffffe))[0]).toBitVec.getLsbD 0 = false
    rw [Vector.getElem_set_self, UInt32.toBitVec_and, BitVec.getLsbD_and]
    exact Bool.and_false _
  | 1 =>
    change ((enable.set 1 value)[0]).toBitVec.getLsbD 0 = false
    rw [Vector.getElem_set_ne _ _ (by decide)]
    exact off

namespace Signals

theorem claim_tame (signals : Signals) (context : Fin 2) : Tame signals.plic (signals.claim context).2.plic := by
  unfold claim
  cases signals.plic.candidate context with
  | none => exact .refl _
  | some line => exact ⟨rfl, rfl, id⟩

theorem complete_tame (signals : Signals) (number : UInt32) : Tame signals.plic (signals.complete number).plic := by
  unfold complete
  split
  · dsimp only
    split
    · exact ⟨rfl, rfl, id⟩
    · exact .refl _
  · exact .refl _

theorem read_tame (signals : Signals) (offset : Nat) : Tame signals.plic (signals.read offset).2.plic := by
  unfold read
  dsimp only
  split
  · exact .refl _
  split
  · exact .refl _
  split
  · split <;> exact .refl _
  · split
    · exact .refl _
    · exact claim_tame signals _
    · exact .refl _

theorem write_tame (signals : Signals) (offset : Nat) (value : UInt32) :
    Tame signals.plic (signals.write offset value).plic := by
  unfold write
  extract_lets plic
  split
  · split
    · exact ⟨rfl, rfl, id⟩
    · exact .refl _
  split
  · exact .refl _
  split
  · split
    · next context word _ =>
      exact ⟨rfl, rfl, fun silent => setContext_silent context (enable_off _ word value (silent context)) silent⟩
    · exact .refl _
  · split
    · next context _ => exact ⟨rfl, rfl, fun silent => setContext_silent context (silent context) silent⟩
    · exact complete_tame signals value
    · exact .refl _

theorem load_tame (signals : Signals) (offset : UInt64) (size : Nat) :
    Tame signals.plic (signals.load offset size).2.plic := by
  unfold load
  split
  · exact read_tame signals offset.toNat
  · exact .refl _

theorem store_tame (signals : Signals) (offset : UInt64) (size : Nat) (value : UInt64) :
    Tame signals.plic (signals.store offset size value).2.plic := by
  unfold store
  split
  · exact write_tame signals offset.toNat value.toUInt32
  · exact .refl _

theorem drive_silent (signals : Signals) (line : Line) (level : Bool) (silent : signals.plic.Silent) :
    (signals.drive line level).plic.Silent := by
  unfold drive
  split
  · exact silent
  · exact silent

theorem drive_others (signals : Signals) {line other : Line} (level : Bool) (different : line ≠ other) :
    (signals.drive line level).plic.level.get other = signals.plic.level.get other := by
  unfold drive
  split
  · rfl
  · exact Vector.getElem_set_ne line.isLt other.isLt (fun same => different (Fin.ext same))

-- What reaches the controller and its pins: a device drives a line, a register is read or written, the controller is
-- reset, alone or with the hart's pins before it.
inductive Event where
  | drive (line : Line) (level : Bool)
  | load (offset : UInt64) (size : Nat)
  | store (offset : UInt64) (size : Nat) (value : UInt64)
  | reset
  | restart

def after (signals : Signals) : Event → Signals
  | .drive line level => signals.drive line level
  | .load offset size => (signals.load offset size).2
  | .store offset size value => (signals.store offset size value).2
  | .reset => signals.reset
  | .restart => { signals with pins := {} : Signals }.reset

-- The level a line is driven to by the last event that drives it.
def driven (line : Line) (level : Bool) : Event → Bool
  | .drive other next => if other = line then next else level
  | _ => level

def history (events : List Event) : Signals :=
  events.foldl after {}

structure Sound (signals : Signals) (levels : Line → Bool) : Prop where
  truthful : signals.Truthful
  silent : signals.plic.Silent
  level : ∀ line, signals.plic.level.get line = levels line

theorem Sound.start : Sound {} fun _ => false where
  truthful context := by
    rw [candidate_low context fun line => Vector.getElem_replicate line.isLt]
    match context with
    | 0 => rfl
    | 1 => rfl
  silent := silent_start
  level line := Vector.getElem_replicate line.isLt

theorem Sound.tame {signals next : Signals} {levels : Line → Bool} (sound : Sound signals levels)
    (settled : Settled signals next) (tame : Tame signals.plic next.plic) : Sound next levels where
  truthful := settled.truthful sound.truthful
  silent := tame.silent sound.silent
  level line := tame.level ▸ sound.level line

theorem Sound.after {signals : Signals} {levels : Line → Bool} (sound : Sound signals levels) (event : Event) :
    Sound (signals.after event) fun line => driven line (levels line) event := by
  cases event with
  | drive line level =>
    refine ⟨(drive_settled signals line level).truthful sound.truthful, drive_silent signals line level sound.silent, ?_⟩
    intro other
    by_cases same : line = other
    · subst same
      exact (drive_level signals line level).trans (if_pos rfl).symm
    · exact (drive_others signals level same).trans ((sound.level other).trans (if_neg same).symm)
  | load offset size => exact sound.tame (load_settled signals offset size) (load_tame signals offset size)
  | store offset size value => exact sound.tame (store_settled signals offset size value) (store_tame signals offset size value)
  | reset => exact ⟨reset_truthful signals, silent_start, sound.level⟩
  | restart => exact ⟨reset_truthful _, silent_start, sound.level⟩

theorem Sound.run {signals : Signals} {levels : Line → Bool} (sound : Sound signals levels) (events : List Event) :
    Sound (events.foldl Signals.after signals) fun line => events.foldl (driven line) (levels line) := by
  induction events generalizing signals levels with
  | nil => exact sound
  | cons event events ih => exact ih (sound.after event)

def claimOffset (context : Fin 2) : UInt64 :=
  UInt64.ofNat (contextOffset + contextStride * context.val + 4)

theorem load_claim (signals : Signals) (context : Fin 2) :
    (signals.load (claimOffset context) 2).1 = .ok (signals.claim context).1.toUInt64 := by
  match context with
  | 0 => rfl
  | 1 => rfl

theorem claim_number (signals : Signals) (context : Fin 2) (silent : signals.plic.Silent) :
    ((signals.claim context).1 = 0 ↔ signals.plic.candidate context = none) ∧
      ∀ line ∈ signals.plic.candidate context, (signals.claim context).1.toNat = line.val := by
  have best := candidate_best signals.plic context
  unfold claim
  cases found : signals.plic.candidate context with
  | none => exact ⟨⟨fun _ => rfl, fun _ => rfl⟩, fun line member => by cases member⟩
  | some line =>
    rw [found] at best
    have number : (UInt32.ofNat line.val).toNat = line.val := by
      rw [UInt32.toNat_ofNat']
      exact Nat.mod_eq_of_lt (by omega)
    have positive : UInt32.ofNat line.val ≠ 0 := by
      intro zero
      rw [zero] at number
      exact best.2.1.nonzero silent (Fin.ext number.symm)
    refine ⟨⟨fun zero => absurd zero positive, fun gone => by cases gone⟩, fun other member => ?_⟩
    cases member
    exact number

/-- After any events a context's pin is high exactly if some source is asserted (as it was driven last), out of service,
enabled in the context and of a priority above the context's threshold. A claim reads 0 exactly if the pin is low, and
else the number of such a source of greatest priority, the lowest on ties. -/
theorem history_tells (events : List Event) (context : Fin 2) :
    ((history events).pin context = true ↔ ∃ line, (history events).plic.Deliverable context line) ∧
    (∀ line, (history events).plic.level.get line = events.foldl (driven line) false) ∧
    ∃ number : UInt32, ((history events).load (claimOffset context) 2).1 = .ok number.toUInt64 ∧
      (number = 0 ↔ (history events).pin context = false) ∧
      (number ≠ 0 → ∃ line : Line, number.toNat = line.val ∧ (history events).plic.Deliverable context line ∧
        ∀ other, (history events).plic.Deliverable context other → (history events).plic.Outranks line other) := by
  have sound : Sound (history events) fun line => events.foldl (driven line) false := Sound.start.run events
  have pin := sound.truthful context
  have best := candidate_best (history events).plic context
  obtain ⟨zero, number⟩ := claim_number (history events) context sound.silent
  refine ⟨?_, sound.level, ((history events).claim context).1, load_claim _ context, ?_, fun some => ?_⟩
  · rw [pin]
    exact candidate_isSome _ context
  · rw [zero, pin, Option.isSome_eq_false_iff, Option.isNone_iff_eq_none]
  · cases found : (history events).plic.candidate context with
    | none => exact absurd (zero.mpr found) some
    | some line =>
      rw [found] at best
      exact ⟨line, number line found, best.2.1, fun other fit => best.2.2 other (List.mem_finRange other) fit⟩

end Signals

end RvBoard.Plic
