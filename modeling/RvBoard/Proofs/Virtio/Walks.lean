import Mathlib.Data.List.Nodup
import Mathlib.Data.List.Perm.Subperm
import RvBoard.Proofs.Virtio.Chains

/-!
# Walks along a chain

The links of the descriptors lead from entry to entry of the queue's table and at most once into an indirect table. The
walk along them ends after a bounded number of reads, and what it gives is decided by where the links lead: to a last
descriptor, to an entry that is at fault, or around in a circle.
-/

set_option autoImplicit false

namespace RvBoard.Virtio

structure Place where
  table : UInt64
  size : UInt32
  index : UInt16
  indirect : Bool
deriving DecidableEq

-- The entry at the head of a chain, and the first of an indirect table.
def VirtQueue.entry (queue : VirtQueue) (head : UInt16) : Place :=
  ⟨queue.descriptors, queue.num, head, false⟩

def Descriptor.entry (descriptor : Descriptor) : Place :=
  ⟨descriptor.address, descriptor.length / 16, 0, true⟩

namespace Place

def Inside (place : Place) : Prop :=
  place.index.toNat < place.size.toNat

instance (place : Place) : Decidable place.Inside :=
  inferInstanceAs (Decidable (_ < _))

def read (place : Place) : EStateM QueueError Bus Descriptor :=
  readDescriptor place.table place.index

inductive Leads (place : Place) (descriptor : Descriptor) : Place → Prop
  | next (direct : descriptor.isIndirect = false) (linked : descriptor.hasNext = true) :
      Leads place descriptor { place with index := descriptor.next }
  | table (outer : place.indirect = false) (indirect : descriptor.isIndirect = true)
      (fair : isTableLength descriptor.length = true) : Leads place descriptor descriptor.entry

-- What else there may be at a place, found out by this number of reads: the last descriptor or a fault.
inductive Ends (place : Place) (bus : Bus) : Nat → Except QueueError Descriptor → Bus → Prop
  | last {descriptor : Descriptor} {after : Bus} (inside : place.Inside) (read : place.read bus = .ok descriptor after)
      (direct : descriptor.isIndirect = false) (unlinked : descriptor.hasNext = false) :
      Ends place bus 1 (.ok descriptor) after
  | outside (outside : ¬ place.Inside) : Ends place bus 0 (.error (.indexOutOfRange place.index place.size)) bus
  | beyond (inside : place.Inside) (wraps : checkedAdd place.table (place.index.toUInt64 * 16) = none) :
      Ends place bus 0 (.error (.memory place.table)) bus
  | unreadable {address : UInt64} {fault : MemFault} {after : Bus} (inside : place.Inside)
      (placed : checkedAdd place.table (place.index.toUInt64 * 16) = some address)
      (fails : Bus.readBytes address descriptorSize bus = .error fault after) :
      Ends place bus 1 (.error (.memory address)) after
  | nested {descriptor : Descriptor} {after : Bus} (inside : place.Inside) (read : place.read bus = .ok descriptor after)
      (inner : place.indirect = true) (indirect : descriptor.isIndirect = true) :
      Ends place bus 1 (.error .nestedIndirect) after
  | illSized {descriptor : Descriptor} {after : Bus} (inside : place.Inside) (read : place.read bus = .ok descriptor after)
      (outer : place.indirect = false) (indirect : descriptor.isIndirect = true)
      (unfair : isTableLength descriptor.length = false) :
      Ends place bus 1 (.error (.badIndirectTable descriptor.length)) after

end Place

abbrev Met := List (Place × Descriptor)

namespace Met

def places (met : Met) : List Place :=
  met.map Prod.fst

def buffers (met : Met) : List Descriptor :=
  (met.map Prod.snd).filter fun descriptor => !descriptor.isIndirect

end Met

inductive Walk : Bus → Place → Met → Bus → Place → Prop
  | stay (bus : Bus) (place : Place) : Walk bus place [] bus place
  | on {bus mid after : Bus} {place next last : Place} {descriptor : Descriptor} {met : Met} (inside : place.Inside)
      (read : place.read bus = .ok descriptor mid) (leads : place.Leads descriptor next) (rest : Walk mid next met after last) :
      Walk bus place ((place, descriptor) :: met) after last

structure Spent (met : Met) (last : Place) : Prop where
  inside : last.Inside
  visits : (met.places.filter fun place => place.indirect = last.indirect).length = last.size.toNat

inductive Concludes (met : Met) (bus : Bus) (last : Place) : Nat → Except QueueError Descriptor → Bus → Prop
  | ends {reads : Nat} {outcome : Except QueueError Descriptor} {after : Bus} (ends : last.Ends bus reads outcome after) :
      Concludes met bus last reads outcome after
  | spent (spent : Spent met last) : Concludes met bus last 0 (.error (.chainTooLong last.size)) bus

section Links

variable {a b c : Bus} {p q r place : Place} {met front back : Met}

theorem Place.Leads.unique {descriptor : Descriptor} (first : p.Leads descriptor q) (second : p.Leads descriptor r) : q = r := by
  cases first with
  | next direct linked =>
    cases second with
    | next => rfl
    | table outer indirect => simp [direct] at indirect
  | table outer indirect fair =>
    cases second with
    | next direct => simp [direct] at indirect
    | table => rfl

theorem Place.read_ok {descriptor : Descriptor} (read : p.read a = .ok descriptor b) :
    ∃ address raw, checkedAdd p.table (p.index.toUInt64 * 16) = some address ∧
      Bus.readBytes address descriptorSize a = .ok raw b := by
  unfold Place.read readDescriptor ringAddress at read
  cases placed : checkedAdd p.table (p.index.toUInt64 * 16) with
  | none =>
    rw [placed] at read
    cases read
  | some address =>
    rw [placed] at read
    cases found : Bus.readBytes address descriptorSize a with
    | ok raw after =>
      simp only [liftExcept, bind, EStateM.bind, onBus, found, pure, EStateM.pure] at read
      cases read
      exact ⟨address, raw, rfl, found⟩
    | error fault after => simp [liftExcept, bind, EStateM.bind, onBus, found, pure, EStateM.pure] at read

theorem Place.Ends.stays {descriptor : Descriptor} {reads : Nat} {outcome : Except QueueError Descriptor} {after : Bus}
    (ends : p.Ends a reads outcome after) (inside : p.Inside) (read : p.read a = .ok descriptor b) :
    ¬ p.Leads descriptor q := by
  intro leads
  cases ends with
  | last _ found direct unlinked =>
    cases read.symm.trans found
    cases leads with
    | next _ linked => simp [unlinked] at linked
    | table _ indirect => simp [direct] at indirect
  | outside outside => exact outside inside
  | beyond _ wraps =>
    obtain ⟨_, _, placed, _⟩ := Place.read_ok read
    cases wraps.symm.trans placed
  | unreadable _ placed fails =>
    obtain ⟨_, _, placed', found⟩ := Place.read_ok read
    cases placed.symm.trans placed'
    cases fails.symm.trans found
  | nested _ found inner indirect =>
    cases read.symm.trans found
    cases leads with
    | next direct => simp [direct] at indirect
    | table outer => simp [inner] at outer
  | illSized _ found outer indirect unfair =>
    cases read.symm.trans found
    cases leads with
    | next direct => simp [direct] at indirect
    | table _ _ fair => simp [unfair] at fair

theorem Place.Ends.unique {reads others : Nat} {outcome other : Except QueueError Descriptor}
    (first : p.Ends a reads outcome b) (second : p.Ends a others other c) : outcome = other ∧ b = c := by
  cases first <;> cases second <;> grind [Place.read_ok]

theorem readDescriptor_fails {error : QueueError} (inside : p.Inside) (fails : p.read a = .error error b) :
    ∃ reads, reads ≤ 1 ∧ p.Ends a reads (.error error) b := by
  unfold Place.read readDescriptor ringAddress at fails
  cases placed : checkedAdd p.table (p.index.toUInt64 * 16) with
  | none =>
    rw [placed] at fails
    cases fails
    exact ⟨0, by omega, .beyond inside placed⟩
  | some address =>
    rw [placed] at fails
    cases found : Bus.readBytes address descriptorSize a with
    | ok raw after => simp [liftExcept, bind, EStateM.bind, onBus, found, pure, EStateM.pure] at fails
    | error fault after =>
      simp only [liftExcept, bind, EStateM.bind, onBus, found, pure, EStateM.pure] at fails
      cases fails
      exact ⟨1, by omega, .unreadable inside placed found⟩

theorem Walk.trans (first : Walk a p front b q) (second : Walk b q back c r) : Walk a p (front ++ back) c r := by
  induction first with
  | stay => exact second
  | on inside read leads _ ih => exact .on inside read leads (ih second)

theorem Walk.goesOn (first : Walk a p front b q) (second : Walk a p met c r) (shorter : front.length ≤ met.length) :
    ∃ back, met = front ++ back ∧ Walk b q back c r := by
  induction first generalizing met with
  | stay => exact ⟨met, rfl, second⟩
  | on inside read leads _ ih =>
    cases second with
    | stay => simp at shorter
    | on _ read' leads' rest' =>
      cases read.symm.trans read'
      cases leads.unique leads'
      obtain ⟨back, rfl, further⟩ := ih rest' (Nat.le_of_succ_le_succ shorter)
      exact ⟨back, rfl, further⟩

theorem Walk.split {descriptor : Descriptor} (walk : Walk a p (front ++ (q, descriptor) :: back) c r) :
    ∃ b, Walk a p front b q ∧ Walk b q ((q, descriptor) :: back) c r := by
  induction front generalizing a p with
  | nil =>
    cases walk with
    | on inside read leads rest => exact ⟨a, .stay a q, .on inside read leads rest⟩
  | cons entry front ih =>
    cases walk with
    | on inside read leads rest =>
      obtain ⟨b, first, second⟩ := ih rest
      exact ⟨b, .on inside read leads first, second⟩

theorem Walk.unique {reads others : Nat} {outcome other : Except QueueError Descriptor} {after final : Bus}
    (first : Walk a p front b q) (second : Walk a p back c r) (ends : q.Ends b reads outcome after)
    (endsToo : r.Ends c others other final) : front = back ∧ b = c ∧ q = r := by
  rcases Nat.le_total front.length back.length with shorter | longer
  · obtain ⟨rest, rfl, further⟩ := first.goesOn second shorter
    cases further with
    | stay => exact ⟨(List.append_nil front).symm, rfl, rfl⟩
    | on inside read leads => exact absurd leads (ends.stays inside read)
  · obtain ⟨rest, rfl, further⟩ := second.goesOn first longer
    cases further with
    | stay => exact ⟨List.append_nil back, rfl, rfl⟩
    | on inside read leads => exact absurd leads (endsToo.stays inside read)

theorem Walk.insides (walk : Walk a p met b q) : ∀ place ∈ met.places, place.Inside := by
  induction walk with
  | stay => simp [Met.places]
  | on inside _ _ _ ih =>
    rintro place member
    rcases List.mem_cons.mp member with rfl | later
    · exact inside
    · exact ih place later

theorem Walk.inner (walk : Walk a p met b q) (inner : p.indirect = true) : q.indirect = true := by
  induction walk with
  | stay => exact inner
  | on _ _ leads _ ih =>
    cases leads with
    | next => exact ih inner
    | table => exact ih rfl

theorem Walk.sameTable (walk : Walk a p met b q) (same : p.indirect = q.indirect) : p.table = q.table ∧ p.size = q.size := by
  induction walk with
  | stay => exact ⟨rfl, rfl⟩
  | on _ _ leads rest ih =>
    cases leads with
    | next => exact ih same
    | table outer => exact absurd (rest.inner rfl) (by simp [← same, outer])

theorem Walk.mem (walk : Walk a p met b q) (member : r ∈ met.places ++ [q]) :
    ∃ front c back, Walk a p front c r ∧ Walk c r back b q := by
  rcases List.mem_append.mp member with member | member
  · obtain ⟨⟨place, descriptor⟩, found, rfl⟩ := List.mem_map.mp member
    obtain ⟨front, back, rfl⟩ := List.append_of_mem found
    obtain ⟨c, first, second⟩ := walk.split
    exact ⟨front, c, _, first, second⟩
  · obtain rfl := List.mem_singleton.mp member
    exact ⟨met, b, [], walk, .stay b r⟩

end Links

def behind (front : List Descriptor) :
    EStateM.Result QueueError Bus (List Descriptor) → EStateM.Result QueueError Bus (List Descriptor)
  | .ok rest bus => .ok (front ++ rest) bus
  | .error error bus => .error error bus

theorem behind_behind (front back : List Descriptor) (result : EStateM.Result QueueError Bus (List Descriptor)) :
    behind front (behind back result) = behind (front ++ back) result := by
  cases result with
  | ok rest bus => simp only [behind, List.append_assoc]
  | error error bus => rfl

theorem behind_nil (result : EStateM.Result QueueError Bus (List Descriptor)) : behind [] result = result := by
  cases result <;> rfl

section Tables

variable {indirect : Descriptor → EStateM QueueError Bus (List Descriptor)} {left : Nat} {bus mid : Bus} {place : Place}
  {descriptor : Descriptor}

theorem followTable_fails {error : QueueError} (inside : place.Inside) (fails : place.read bus = .error error mid) :
    followTable indirect place.table place.size (left + 1) place.index bus = .error error mid := by
  rw [followTable, if_neg (Nat.not_le.mpr inside)]
  exact bind_of_error fails

theorem followTable_indirect (inside : place.Inside) (read : place.read bus = .ok descriptor mid)
    (isIndirect : descriptor.isIndirect = true) :
    followTable indirect place.table place.size (left + 1) place.index bus = indirect descriptor mid := by
  rw [followTable, if_neg (Nat.not_le.mpr inside)]
  refine (bind_of_ok read).trans ?_
  rw [if_pos isIndirect]

theorem followTable_next (inside : place.Inside) (read : place.read bus = .ok descriptor mid)
    (direct : descriptor.isIndirect = false) (linked : descriptor.hasNext = true) :
    followTable indirect place.table place.size (left + 1) place.index bus =
      behind [descriptor] (followTable indirect place.table place.size left descriptor.next mid) := by
  rw [followTable, if_neg (Nat.not_le.mpr inside)]
  refine (bind_of_ok read).trans ?_
  rw [direct, if_neg Bool.false_ne_true, if_pos linked]
  cases rest : followTable indirect place.table place.size left descriptor.next mid with
  | ok descriptors after => exact bind_of_ok rest
  | error error after => exact bind_of_error rest

theorem followTable_last (inside : place.Inside) (read : place.read bus = .ok descriptor mid)
    (direct : descriptor.isIndirect = false) (unlinked : descriptor.hasNext = false) :
    followTable indirect place.table place.size (left + 1) place.index bus = .ok [descriptor] mid := by
  rw [followTable, if_neg (Nat.not_le.mpr inside)]
  refine (bind_of_ok read).trans ?_
  rw [direct, if_neg Bool.false_ne_true, unlinked, if_neg Bool.false_ne_true]
  rfl

end Tables

inductive Along (indirect : Descriptor → EStateM QueueError Bus (List Descriptor)) (left : Nat) (met : Met) (bus : Bus)
    (last : Place) : EStateM.Result QueueError Bus (List Descriptor) → Prop
  | spent (inside : last.Inside) (visits : met.length = left) :
      Along indirect left met bus last (.error (.chainTooLong last.size) bus)
  | ends {reads : Nat} {outcome : Except QueueError Descriptor} {after : Bus} (ends : last.Ends bus reads outcome after)
      (bound : met.length + reads ≤ left) :
      Along indirect left met bus last (behind met.buffers (resultAt (outcome.map ([·])) after))
  | deeper {descriptor : Descriptor} {after : Bus} (inside : last.Inside) (read : last.read bus = .ok descriptor after)
      (isIndirect : descriptor.isIndirect = true) (bound : met.length < left) :
      Along indirect left met bus last (behind met.buffers (indirect descriptor after))

theorem Along.behind {indirect : Descriptor → EStateM QueueError Bus (List Descriptor)} {left : Nat} {met : Met} {bus : Bus}
    {place last : Place} {descriptor : Descriptor} {result : EStateM.Result QueueError Bus (List Descriptor)}
    (along : Along indirect left met bus last result) (direct : descriptor.isIndirect = false) :
    Along indirect (left + 1) ((place, descriptor) :: met) bus last (behind [descriptor] result) := by
  have buffers : Met.buffers ((place, descriptor) :: met) = [descriptor] ++ met.buffers := by
    simp [Met.buffers, direct]
  cases along with
  | spent inside visits => exact .spent inside (congrArg (· + 1) visits)
  | ends ends bound =>
    rw [behind_behind, ← buffers]
    exact .ends ends (by simp only [List.length_cons]; omega)
  | deeper inside read isIndirect bound =>
    rw [behind_behind, ← buffers]
    exact .deeper inside read isIndirect (Nat.succ_lt_succ bound)

theorem followTable_stays {indirect : Descriptor → EStateM QueueError Bus (List Descriptor)} {left : Nat} {bus : Bus}
    {place : Place}
    (along : Along indirect left [] bus place (followTable indirect place.table place.size left place.index bus)) :
    ∃ met mid last, Walk bus place met mid last ∧ (∀ other ∈ met.places, other.indirect = place.indirect) ∧
      last.indirect = place.indirect ∧
      Along indirect left met mid last (followTable indirect place.table place.size left place.index bus) :=
  ⟨[], bus, place, .stay bus place, by simp [Met.places], rfl, along⟩

theorem followTable_walk (indirect : Descriptor → EStateM QueueError Bus (List Descriptor)) (left : Nat) (bus : Bus)
    (place : Place) :
    ∃ met mid last, Walk bus place met mid last ∧ (∀ other ∈ met.places, other.indirect = place.indirect) ∧
      last.indirect = place.indirect ∧
      Along indirect left met mid last (followTable indirect place.table place.size left place.index bus) := by
  induction left generalizing bus place with
  | zero =>
    refine followTable_stays ?_
    by_cases inside : place.Inside
    · rw [followTable, if_neg (Nat.not_le.mpr inside)]
      exact .spent inside rfl
    · rw [followTable, if_pos (Nat.le_of_not_lt inside)]
      exact .ends (.outside inside) (Nat.le_refl 0)
  | succ left ih =>
    by_cases inside : place.Inside
    · cases read : place.read bus with
      | error error mid =>
        obtain ⟨reads, few, ends⟩ := readDescriptor_fails inside read
        refine followTable_stays ?_
        rw [followTable_fails inside read]
        exact .ends ends (by simp only [List.length_nil]; omega)
      | ok descriptor mid =>
        cases kind : descriptor.isIndirect with
        | true =>
          refine followTable_stays ?_
          rw [followTable_indirect inside read kind, ← behind_nil (indirect descriptor mid)]
          exact .deeper inside read kind (Nat.succ_pos left)
        | false =>
          cases linked : descriptor.hasNext with
          | false =>
            refine followTable_stays ?_
            rw [followTable_last inside read kind linked]
            exact .ends (.last inside read kind linked) (Nat.succ_le_succ (Nat.zero_le left))
          | true =>
            obtain ⟨met, after, last, walk, same, final, along⟩ := ih mid { place with index := descriptor.next }
            refine ⟨_, after, last, .on inside read (.next kind linked) walk, ?_, final, ?_⟩
            · rintro other member
              rcases List.mem_cons.mp member with rfl | later
              · rfl
              · exact same other later
            · rw [followTable_next inside read kind linked]
              exact along.behind kind
    · refine followTable_stays ?_
      rw [followTable, if_pos (Nat.le_of_not_lt inside)]
      exact .ends (.outside inside) (Nat.zero_le _)

def Comes (bus : Bus) (start : Place) (bound : Nat) (result : EStateM.Result QueueError Bus (List Descriptor)) : Prop :=
  ∃ met mid last reads outcome after, Walk bus start met mid last ∧ Concludes met mid last reads outcome after ∧
    met.length + reads ≤ bound ∧ result = behind met.buffers (resultAt (outcome.map ([·])) after)

section Levels

variable {bus mid : Bus}

theorem Met.buffers_append (front back : Met) : buffers (front ++ back) = front.buffers ++ back.buffers := by
  simp [buffers]

theorem Met.places_append (front back : Met) : places (front ++ back) = front.places ++ back.places :=
  List.map_append

theorem filter_all {places : List Place} {indirect : Bool} (same : ∀ place ∈ places, place.indirect = indirect) :
    places.filter (fun place => place.indirect = indirect) = places :=
  List.filter_eq_self.mpr fun place member => decide_eq_true (same place member)

theorem filter_none {places : List Place} {indirect : Bool} (other : ∀ place ∈ places, place.indirect ≠ indirect) :
    places.filter (fun place => place.indirect = indirect) = [] :=
  List.filter_eq_nil_iff.mpr fun place member => by simpa using other place member

theorem Comes.within {start entry : Place} {front : Met} {bound : Nat}
    {result : EStateM.Result QueueError Bus (List Descriptor)} (comes : Comes mid entry bound result)
    (walk : Walk bus start front mid entry) (outer : ∀ place ∈ front.places, place.indirect = false) (inner : entry.indirect = true) :
    Comes bus start (front.length + bound) (behind front.buffers result) := by
  obtain ⟨met, final, last, reads, outcome, after, further, concludes, few, rfl⟩ := comes
  refine ⟨front ++ met, final, last, reads, outcome, after, walk.trans further, ?_, ?_, ?_⟩
  · cases concludes with
    | ends ends => exact .ends ends
    | spent spent =>
      refine .spent ⟨spent.inside, ?_⟩
      have apart : ∀ place ∈ front.places, place.indirect ≠ last.indirect := by
        intro place member
        simp [outer place member, further.inner inner]
      rw [Met.places_append, List.filter_append, filter_none apart]
      exact spent.visits
  · rw [List.length_append]
    omega
  · rw [behind_behind, Met.buffers_append]

theorem Comes.mono {start : Place} {few many : Nat} {result : EStateM.Result QueueError Bus (List Descriptor)}
    (comes : Comes bus start few result) (less : few ≤ many) : Comes bus start many result := by
  obtain ⟨met, mid, last, reads, outcome, after, walk, concludes, bound, same⟩ := comes
  exact ⟨met, mid, last, reads, outcome, after, walk, concludes, Nat.le_trans bound less, same⟩

theorem followIndirect_comes {descriptor : Descriptor} (fair : isTableLength descriptor.length = true) (bus : Bus) :
    Comes bus descriptor.entry maxQueueSize.toNat (followIndirect descriptor bus) := by
  obtain ⟨met, mid, last, walk, same, final, along⟩ := followTable_walk
    (fun _ => throw .nestedIndirect) (descriptor.length / 16).toNat bus descriptor.entry
  have short : (descriptor.length / 16).toNat ≤ maxQueueSize.toNat := by
    simp only [isTableLength, Bool.and_eq_true, decide_eq_true_eq] at fair
    rw [UInt32.toNat_div]
    exact fair.2
  have opened : followIndirect descriptor bus = followTable (fun _ => throw .nestedIndirect) descriptor.entry.table
      descriptor.entry.size (descriptor.length / 16).toNat descriptor.entry.index bus := by
    unfold followIndirect
    rw [fair]
    rfl
  rw [opened]
  generalize followTable _ _ _ _ _ bus = result at along
  cases along with
  | spent inside visits =>
    have size : last.size = descriptor.length / 16 := (walk.sameTable final.symm).2.symm
    refine ⟨met, mid, last, 0, _, mid, walk, .spent ⟨inside, ?_⟩, by omega, rfl⟩
    rw [final, filter_all same, size]
    simpa [Met.places] using visits
  | ends ends bound => exact ⟨met, mid, last, _, _, _, walk, .ends ends, by omega, rfl⟩
  | deeper inside read isIndirect bound =>
    exact ⟨met, mid, last, 1, _, _, walk, .ends (.nested inside read final isIndirect), by omega, rfl⟩

theorem followTable_comes (queue : VirtQueue) (head : UInt16) (bus : Bus) :
    Comes bus (queue.entry head) (queue.num.toNat + maxQueueSize.toNat)
      (followTable followIndirect queue.descriptors queue.num queue.num.toNat head bus) := by
  obtain ⟨met, mid, last, walk, same, final, along⟩ :=
    followTable_walk followIndirect queue.num.toNat bus (queue.entry head)
  have size : queue.num = last.size := (walk.sameTable final.symm).2
  change Comes bus (queue.entry head) _
    (followTable followIndirect (queue.entry head).table (queue.entry head).size _ (queue.entry head).index bus)
  generalize followTable _ _ _ _ _ bus = result at along
  cases along with
  | spent inside visits =>
    refine ⟨met, mid, last, 0, _, mid, walk, .spent ⟨inside, ?_⟩, by omega, rfl⟩
    rw [final, filter_all same, ← size]
    simpa [Met.places] using visits
  | ends ends bound => exact ⟨met, mid, last, _, _, _, walk, .ends ends, by omega, rfl⟩
  | @deeper descriptor after inside read isIndirect bound =>
    cases fair : isTableLength descriptor.length with
    | false =>
      refine ⟨met, mid, last, 1, _, after, walk, .ends (.illSized inside read final isIndirect fair), by omega, ?_⟩
      unfold followIndirect
      rw [fair]
      rfl
    | true =>
      have step : Walk mid last [(last, descriptor)] after descriptor.entry :=
        .on inside read (.table final isIndirect fair) (.stay _ _)
      have outer : ∀ place ∈ Met.places (met ++ [(last, descriptor)]), place.indirect = false := by
        intro place member
        rw [Met.places_append] at member
        rcases List.mem_append.mp member with early | here
        · exact same place early
        · rw [List.mem_singleton.mp here]
          exact final
      have buffers : Met.buffers (met ++ [(last, descriptor)]) = met.buffers := by
        simp [Met.buffers, isIndirect]
      have comes := (followIndirect_comes fair after).within (walk.trans step) outer rfl
      rw [buffers] at comes
      exact comes.mono (by simp only [List.length_append, List.length_singleton]; omega)

theorem readChain_run (queue : VirtQueue) (head : UInt16) (bus : Bus) {met : Met} {outcome : Except QueueError Descriptor}
    {after : Bus} (found : followTable followIndirect queue.descriptors queue.num queue.num.toNat head bus =
      behind met.buffers (resultAt (outcome.map ([·])) after)) :
    readChain queue head bus = resultAt (outcome.map fun last => ⟨head, met.buffers ++ [last]⟩) after := by
  cases outcome with
  | ok last => exact bind_of_ok found
  | error error => exact bind_of_error found

end Levels

-- Every entry that a walk comes to lies in memory, or nowhere.
def InMemory (bus : Bus) (start : Place) : Prop :=
  ∀ met mid place, Walk bus start met mid place →
    ∀ address, checkedAdd place.table (place.index.toUInt64 * 16) = some address →
    bus.Calm ⟨address, descriptorSize⟩

def Loops (bus : Bus) (place : Place) : Prop :=
  ∃ met, met ≠ [] ∧ Walk bus place met bus place

section Circles

variable {bus mid after : Bus} {start place p q last : Place} {met front back : Met} {descriptor : Descriptor} {reads : Nat}
  {outcome : Except QueueError Descriptor}

theorem read_calm (calm : ∀ address, checkedAdd place.table (place.index.toUInt64 * 16) = some address →
    bus.Calm ⟨address, descriptorSize⟩) (read : place.read bus = .ok descriptor mid) : mid = bus := by
  obtain ⟨result, same, _⟩ := readDescriptor_alike (.refl (fun _ => False) bus)
    (fun address placed => ⟨calm address placed, fun _ _ => id⟩)
  cases result with
  | ok _ => cases read.symm.trans same; rfl
  | error _ => cases read.symm.trans same

theorem InMemory.walk (calm : InMemory bus start) (walk : Walk bus start met mid place) : mid = bus ∧ InMemory bus place := by
  induction walk with
  | stay => exact ⟨rfl, calm⟩
  | on inside read leads _ ih =>
    obtain rfl := read_calm (calm [] _ _ (.stay _ _)) read
    exact ih fun met mid place further => calm _ mid place (.on inside read leads further)

theorem Loops.prolong (loops : Loops bus q) (n : Nat) : ∃ met, n ≤ met.length ∧ Walk bus q met bus q := by
  induction n with
  | zero => exact ⟨[], Nat.le_refl 0, .stay bus q⟩
  | succ n ih =>
    obtain ⟨once, around, walk⟩ := loops
    obtain ⟨met, long, more⟩ := ih
    refine ⟨once ++ met, ?_, walk.trans more⟩
    have := List.length_pos_iff.mpr around
    rw [List.length_append]
    omega

theorem Loops.reached (loops : Loops bus q) (arrives : Walk bus start front bus q) (walk : Walk bus start met mid place) :
    ∃ back, Walk mid place back bus q := by
  obtain ⟨more, long, around⟩ := loops.prolong met.length
  have enough : met.length ≤ (front ++ more).length := by
    rw [List.length_append]
    omega
  obtain ⟨back, _, further⟩ := walk.goesOn (arrives.trans around) enough
  exact ⟨back, further⟩

theorem Loops.endless (loops : Loops bus q) (arrives : Walk bus start front bus q) (walk : Walk bus start met mid last) :
    ¬ last.Ends mid reads outcome after := by
  intro ends
  obtain ⟨back, further⟩ := loops.reached arrives walk
  cases further with
  | stay =>
    obtain ⟨met, around, circle⟩ := loops
    cases circle with
    | stay => exact around rfl
    | on inside read leads => exact ends.stays inside read leads
  | on inside read leads => exact ends.stays inside read leads

theorem loops_of_met (calm : InMemory bus start) (walk : Walk bus start met mid last) (kind : Place → Bool)
    (again : ¬ ((met.places ++ [last]).filter kind).Nodup) :
    ∃ front q, Walk bus start front bus q ∧ Loops bus q ∧ kind q = true := by
  induction walk with
  | stay =>
    exact absurd ((List.nodup_singleton _).filter _) again
  | @on bus mid after place next last descriptor met inside read leads rest ih =>
    obtain ⟨rfl, further⟩ := calm.walk (.on inside read leads (.stay mid next))
    by_cases here : kind place = true ∧ place ∈ met.places ++ [last]
    · obtain ⟨front, c, back, first, second⟩ := rest.mem here.2
      obtain rfl := (further.walk first).1
      exact ⟨[], place, .stay _ _, ⟨_, List.cons_ne_nil _ _, .on inside read leads first⟩, here.1⟩
    · have later : ¬ ((met.places ++ [last]).filter kind).Nodup := by
        intro distinct
        apply again
        change ((place :: (met.places ++ [last])).filter kind).Nodup
        by_cases chosen : kind place = true
        · rw [List.filter_cons_of_pos chosen, List.nodup_cons]
          exact ⟨fun member => here ⟨chosen, (List.mem_filter.mp member).1⟩, distinct⟩
        · rw [List.filter_cons_of_neg chosen]
          exact distinct
      obtain ⟨front, q, arrives, loops, chosen⟩ := ih further later
      exact ⟨_, q, .on inside read leads arrives, loops, chosen⟩

theorem places_length {places : List Place} (distinct : places.Nodup) (inside : ∀ place ∈ places, place.Inside)
    (same : ∀ place ∈ places, place.table = last.table ∧ place.size = last.size ∧ place.indirect = last.indirect) :
    places.length ≤ last.size.toNat := by
  have indices : (places.map fun place => place.index.toNat).Nodup := by
    refine (List.nodup_map_iff_inj_on distinct).mpr fun p memberP q memberQ equal => ?_
    obtain ⟨tableP, sizeP, kindP⟩ := same p memberP
    obtain ⟨tableQ, sizeQ, kindQ⟩ := same q memberQ
    cases p
    cases q
    simp_all [UInt16.toNat_inj]
  have bounded : (places.map fun place => place.index.toNat) ⊆ List.range last.size.toNat := by
    intro index member
    obtain ⟨place, met, rfl⟩ := List.mem_map.mp member
    rw [List.mem_range, ← (same place met).2.1]
    exact inside place met
  simpa using (List.subperm_of_subset indices bounded).length_le

theorem Walk.sameTables (walk : Walk bus start met mid last) (inside : last.Inside) :
    ∀ place ∈ (met.places ++ [last]).filter (fun place => place.indirect = last.indirect),
      place.Inside ∧ place.table = last.table ∧ place.size = last.size ∧ place.indirect = last.indirect := by
  intro place chosen
  obtain ⟨member, kind⟩ := List.mem_filter.mp chosen
  obtain ⟨_, _, _, _, further⟩ := walk.mem member
  have same := further.sameTable (of_decide_eq_true kind)
  refine ⟨?_, same.1, same.2, of_decide_eq_true kind⟩
  rcases List.mem_append.mp member with early | here
  · exact walk.insides place early
  · rw [List.mem_singleton.mp here]
    exact inside

theorem Spent.loops (spent : Spent met last) (calm : InMemory bus start) (walk : Walk bus start met mid last) :
    ∃ front q, Walk bus start front bus q ∧ Loops bus q ∧ q.indirect = last.indirect := by
  have tables := walk.sameTables spent.inside
  have again : ¬ ((met.places ++ [last]).filter fun place => place.indirect = last.indirect).Nodup := by
    intro distinct
    have few := places_length distinct (fun place member => (tables place member).1)
      (fun place member => (tables place member).2)
    rw [List.filter_append, List.length_append, spent.visits, filter_all (by simp)] at few
    exact absurd few (Nat.not_succ_le_self _)
  obtain ⟨front, q, arrives, loops, chosen⟩ := loops_of_met calm walk _ again
  exact ⟨front, q, arrives, loops, of_decide_eq_true chosen⟩

theorem Walk.mutual (there : Walk bus p front bus q) (back : Walk bus q met mid p) : p.indirect = q.indirect := by
  cases kindP : p.indirect with
  | true => exact (there.inner kindP).symm
  | false =>
    cases kindQ : q.indirect with
    | false => rfl
    | true => exact absurd (back.inner kindQ) (by simp [kindP])

theorem Spent.size (spent : Spent met last) (calm : InMemory bus start) (walk : Walk bus start met mid last)
    (loops : Loops bus q) (arrives : Walk bus start front bus q) : last.size = q.size := by
  obtain rfl := (calm.walk walk).1
  obtain ⟨_, r, arrivesToo, loopsToo, kind⟩ := spent.loops calm walk
  obtain ⟨_, there⟩ := loops.reached arrives arrivesToo
  obtain ⟨_, home⟩ := loopsToo.reached arrivesToo arrives
  obtain ⟨_, onward⟩ := loops.reached arrives walk
  exact (onward.sameTable (kind.symm.trans (there.mutual home))).2

end Circles

/-- What the walk of a chain finds: some walk's conclusion, after a bounded number of reads. Of a chain in memory that
ends, it is what the chain ends with, and the walk meets no entry of a table twice; a chain that loops is too long. -/
structure Follows (queue : VirtQueue) (head : UInt16) (bus : Bus) : Prop where
  bounded : ∃ met mid last reads outcome after, Walk bus (queue.entry head) met mid last ∧
    Concludes met mid last reads outcome after ∧ met.length + reads ≤ queue.num.toNat + maxQueueSize.toNat ∧
    readChain queue head bus = resultAt (outcome.map fun last => ⟨head, met.buffers ++ [last]⟩) after
  direct : ∀ {chain after}, readChain queue head bus = .ok chain after →
    ∀ descriptor ∈ chain.descriptors, descriptor.isIndirect = false
  ended : InMemory bus (queue.entry head) →
    ∀ {met mid last reads outcome after}, Walk bus (queue.entry head) met mid last → last.Ends mid reads outcome after →
      readChain queue head bus = resultAt (outcome.map fun last => ⟨head, met.buffers ++ [last]⟩) after ∧
        (met.places ++ [last]).Nodup
  looping : InMemory bus (queue.entry head) → ∀ {met mid last}, Walk bus (queue.entry head) met mid last →
    last ∈ met.places → readChain queue head bus = .error (.chainTooLong last.size) bus

theorem readChain_concludes (queue : VirtQueue) (head : UInt16) (bus : Bus) :
    ∃ met mid last reads outcome after, Walk bus (queue.entry head) met mid last ∧
      Concludes met mid last reads outcome after ∧ met.length + reads ≤ queue.num.toNat + maxQueueSize.toNat ∧
      readChain queue head bus = resultAt (outcome.map fun last => ⟨head, met.buffers ++ [last]⟩) after := by
  obtain ⟨met, mid, last, reads, outcome, after, walk, concludes, bound, found⟩ := followTable_comes queue head bus
  exact ⟨met, mid, last, reads, outcome, after, walk, concludes, bound, readChain_run queue head bus found⟩

/-- Every chain is walked within a bounded number of reads, and the walk gives exactly what its links lead to. -/
theorem readChain_follows (queue : VirtQueue) (head : UInt16) (bus : Bus) : Follows queue head bus := by
  have concluded := readChain_concludes queue head bus
  obtain ⟨met, mid, last, reads, outcome, after, walk, concludes, -, found⟩ := readChain_concludes queue head bus
  refine ⟨concluded, fun {chain final} done descriptor member => ?_,
    fun calm {met' mid' last' reads' outcome' after'} walk' ends' => ?_, fun calm {met' mid' last'} walk' member => ?_⟩
  · rw [found] at done
    cases concludes with
    | spent => cases done
    | ends ends =>
      cases ends with
      | last _ _ direct =>
        cases done
        rcases List.mem_append.mp member with early | here
        · simpa using (List.mem_filter.mp early).2
        · rw [List.mem_singleton.mp here]
          exact direct
      | _ => cases done
  · constructor
    · cases concludes with
      | spent spent =>
        obtain ⟨_, _, arrives, loops, _⟩ := spent.loops calm walk
        exact absurd ends' (loops.endless arrives walk')
      | ends ends =>
        obtain ⟨rfl, rfl, rfl⟩ := walk.unique walk' ends ends'
        obtain ⟨rfl, rfl⟩ := ends.unique ends'
        exact found
    · refine Classical.byContradiction fun again => ?_
      rw [← List.filter_true (met'.places ++ [last'])] at again
      obtain ⟨_, _, arrives, loops, _⟩ := loops_of_met calm walk' _ again
      exact loops.endless arrives walk' ends'
  · obtain ⟨⟨place, descriptor⟩, here, rfl⟩ := List.mem_map.mp member
    obtain ⟨front, back, rfl⟩ := List.append_of_mem here
    obtain ⟨between, arrives, circle⟩ := walk'.split
    obtain rfl := (calm.walk arrives).1
    obtain rfl := (calm.walk walk').1
    have loops : Loops mid' place := ⟨_, List.cons_ne_nil _ _, circle⟩
    cases concludes with
    | spent spent =>
      rw [← spent.size calm walk loops arrives]
      obtain rfl := (calm.walk walk).1
      exact found
    | ends ends => exact absurd ends (loops.endless arrives walk)

def tables : ByteArray :=
  ⟨#[0, 0, 0, 0, 0, 0, 0, 0, 4, 0, 0, 0, 1, 0, 0, 0, 0x20, 0x10, 0, 0, 0, 0, 0, 0, 32, 0, 0, 0, 4, 0, 0, 0,
    0, 0x50, 0, 0, 0, 0, 0, 0, 16, 0, 0, 0, 1, 0, 1, 0, 0x10, 0x50, 0, 0, 0, 0, 0, 0, 1, 0, 0, 0, 2, 0, 0, 0]⟩

def tablesBus : Bus :=
  Bus.ofMemory 0x1000 ⟨tables⟩

def tablesQueue : VirtQueue := { num := 2, descriptors := 0x1000 }

theorem tables_inMemory (place : Place) : InMemory tablesBus place :=
  fun _ _ _ _ _ _ => Bus.ofMemory_calm _

theorem tables_read {place : Place} {descriptor : Descriptor} (found : value? (place.read tablesBus) = some descriptor) :
    place.read tablesBus = .ok descriptor tablesBus := by
  have read := value_ok found
  rw [read_calm (fun _ _ => Bus.ofMemory_calm _) read] at read
  exact read

theorem readChain_follows_tables :
    readChain tablesQueue 1 tablesBus = .ok ⟨1, [⟨0x5000, 16, 1, 1⟩, ⟨0x5010, 1, 2, 0⟩]⟩ tablesBus ∧
      readChain tablesQueue 0 tablesBus = .error (.chainTooLong 2) tablesBus := by
  have itself : (tablesQueue.entry 0).read tablesBus = .ok ⟨0, 4, 1, 0⟩ tablesBus := tables_read (by decide +kernel)
  have table : (tablesQueue.entry 1).read tablesBus = .ok ⟨0x1020, 32, 4, 0⟩ tablesBus := tables_read (by decide +kernel)
  have first : Place.read ⟨0x1020, 2, 0, true⟩ tablesBus = .ok ⟨0x5000, 16, 1, 1⟩ tablesBus :=
    tables_read (by decide +kernel)
  have second : Place.read ⟨0x1020, 2, 1, true⟩ tablesBus = .ok ⟨0x5010, 1, 2, 0⟩ tablesBus :=
    tables_read (by decide +kernel)
  constructor
  · exact ((readChain_follows tablesQueue 1 tablesBus).ended (tables_inMemory _)
      (.on (by decide) table (.table rfl (by decide) (by decide))
        (.on (by decide) first (.next (by decide) (by decide)) (.stay _ _)))
      (.last (by decide) second (by decide) (by decide))).1
  · exact (readChain_follows tablesQueue 0 tablesBus).looping (tables_inMemory _)
      (.on (by decide) itself (.next (by decide) (by decide)) (.stay _ _)) (by decide)

end RvBoard.Virtio
