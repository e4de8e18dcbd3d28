import RvBoard.Bus

/-!
# Address map

What any sequence of bindings makes of the windows of a bus. They stay in the order of their
starts. A window without addresses hides what lies behind it from a later binding at its own start;
as long as such windows share their start with no other, no address lies in two windows, and a
window that would share an address with another is refused.
-/

set_option autoImplicit false

namespace RvBoard

namespace Window

def Empty (window : Window) : Prop :=
  ∀ address, window.has address = false

def Shares (a b : Window) : Prop :=
  ∃ address, a.has address = true ∧ b.has address = true

theorem start_le_stop (window : Window) : window.start ≤ window.stop := by
  rw [UInt64.le_iff_toNat_le, stop, toNat_saturatingAdd]
  have bound := window.start.toNat_lt_size
  omega

theorem has_iff {window : Window} {address : UInt64} :
    window.has address = true ↔ window.start ≤ address ∧ address < window.stop := by
  simp only [has, Bool.and_eq_true, decide_eq_true_eq]

theorem overlaps_iff {a b : Window} : a.overlaps b = true ↔ a.start < b.stop ∧ b.start < a.stop := by
  simp only [overlaps, Bool.and_eq_true, decide_eq_true_eq]

theorem empty_iff {window : Window} : window.Empty ↔ window.stop ≤ window.start := by
  constructor
  · intro empty
    have unheld : ¬ window.has window.start = true := by
      rw [empty]
      exact Bool.false_ne_true
    exact UInt64.not_lt.mp fun more => unheld (has_iff.mpr ⟨UInt64.le_refl _, more⟩)
  · intro bound address
    rw [← Bool.not_eq_true, has_iff]
    rintro ⟨above, below⟩
    exact UInt64.lt_irrefl _ (UInt64.lt_of_lt_of_le below (UInt64.le_trans bound above))

theorem Shares.symm {a b : Window} (shares : a.Shares b) : b.Shares a := by
  obtain ⟨address, inA, inB⟩ := shares
  exact ⟨address, inB, inA⟩

theorem Shares.overlaps {a b : Window} (shares : a.Shares b) : a.overlaps b = true := by
  obtain ⟨address, inA, inB⟩ := shares
  obtain ⟨aboveA, belowA⟩ := has_iff.mp inA
  obtain ⟨aboveB, belowB⟩ := has_iff.mp inB
  exact overlaps_iff.mpr ⟨UInt64.lt_of_le_of_lt aboveA belowB, UInt64.lt_of_le_of_lt aboveB belowA⟩

end Window

namespace Bus

-- The window that a binding asks for.
def asked (bus : Bus) (base : UInt64) (id : DeviceId) : Window :=
  ⟨base, ((bus.device? id).map Device.size).getD 0, id⟩

def attempt (bus : Bus) (base : UInt64) (id : DeviceId) : Bus :=
  match bus.bind base id with
  | .ok next => next
  | .error _ => bus

def attempts (bus : Bus) (calls : List (UInt64 × DeviceId)) : Bus :=
  calls.foldl (fun bus call => bus.attempt call.1 call.2) bus

def Refuses (bus : Bus) (base : UInt64) (id : DeviceId) : Prop :=
  ∃ error, bus.bind base id = .error error

-- The windows that start below an address, and the others.
def below (bus : Bus) (base : UInt64) : List Window :=
  bus.windows.toList.takeWhile fun window => window.start < base

def above (bus : Bus) (base : UInt64) : List Window :=
  bus.windows.toList.dropWhile fun window => window.start < base

theorem below_above (bus : Bus) (base : UInt64) : bus.below base ++ bus.above base = bus.windows.toList :=
  List.takeWhile_append_dropWhile

theorem rank_below (bus : Bus) (base : UInt64) : rank bus.windows base = (bus.below base).length := by
  unfold rank below
  rw [← Array.length_toList, Array.toList_takeWhile]

theorem insertIdx_length {α : Type} (lower upper : List α) (x : α) :
    (lower ++ upper).insertIdx lower.length x = lower ++ x :: upper := by
  induction lower with
  | nil => rfl
  | cons first rest ih => exact congrArg (first :: ·) ih

theorem windows_inserted (bus : Bus) (base : UInt64) (window : Window) :
    (bus.windows.insertIdxIfInBounds (rank bus.windows base) window).toList =
      bus.below base ++ window :: bus.above base := by
  have inserted := List.insertIdxIfInBounds_toArray bus.windows.toList (rank bus.windows base) window
  rw [Array.toArray_toList] at inserted
  rw [inserted, List.toList_toArray, ← below_above bus base, rank_below]
  exact insertIdx_length _ _ window

theorem neighbours_eq (bus : Bus) (base : UInt64) :
    neighbours bus.windows (rank bus.windows base) =
      (bus.below base).getLast?.toList ++ (bus.above base).head?.toList := by
  have windows (i : Nat) : bus.windows[i]? = (bus.below base ++ bus.above base)[i]? := by
    rw [below_above, Array.getElem?_toList]
  unfold neighbours
  rw [rank_below, windows, windows, List.getElem?_append_right (Nat.le_refl _), Nat.sub_self, List.head?_eq_getElem?]
  congr 2
  cases lower : bus.below base with
  | nil => rfl
  | cons first rest =>
    rw [if_neg (by simp), List.getLast?_eq_getElem?, List.getElem?_append_left (by simp)]

def Adjoins (bus : Bus) (base : UInt64) (other : Window) : Prop :=
  (bus.below base).getLast? = some other ∨ (bus.above base).head? = some other

theorem mem_neighbours {bus : Bus} {base : UInt64} {other : Window} :
    other ∈ neighbours bus.windows (rank bus.windows base) ↔ bus.Adjoins base other := by
  rw [neighbours_eq, List.mem_append, Option.mem_toList, Option.mem_toList]
  rfl

theorem bind_eq (bus : Bus) (base : UInt64) (id : DeviceId) :
    bus.bind base id =
      match (neighbours bus.windows (rank bus.windows base)).find? (bus.asked base id).overlaps with
      | some other =>
        .error ⟨bus.nameOf id, base, (bus.asked base id).stop, bus.nameOf other.device, other.start, other.stop⟩
      | none =>
        .ok { bus with windows := bus.windows.insertIdxIfInBounds (rank bus.windows base) (bus.asked base id) } := by
  unfold bind asked
  cases bus.device? id <;> rfl

theorem bind_cases (bus : Bus) (base : UInt64) (id : DeviceId) :
    (bus.Refuses base id ∧ ∃ other, bus.Adjoins base other ∧ (bus.asked base id).overlaps other = true) ∨
      (∀ other, bus.Adjoins base other → ¬ (bus.asked base id).overlaps other = true) ∧
        bus.bind base id = .ok { bus with
          windows := bus.windows.insertIdxIfInBounds (rank bus.windows base) (bus.asked base id) } := by
  unfold Refuses
  rw [bind_eq]
  cases found : (neighbours bus.windows (rank bus.windows base)).find? (bus.asked base id).overlaps with
  | some other =>
    refine .inl ⟨⟨_, rfl⟩, other, mem_neighbours.mp (List.mem_of_find?_eq_some found), ?_⟩
    exact List.find?_some found
  | none =>
    refine .inr ⟨fun other adjoins => ?_, rfl⟩
    exact List.find?_eq_none.mp found other (mem_neighbours.mpr adjoins)

theorem refuses_iff {bus : Bus} {base : UInt64} {id : DeviceId} :
    bus.Refuses base id ↔ ∃ other, bus.Adjoins base other ∧ (bus.asked base id).overlaps other = true := by
  rcases bind_cases bus base id with ⟨refused, overlapped⟩ | ⟨apart, bound⟩
  · exact ⟨fun _ => overlapped, fun _ => refused⟩
  · constructor
    · rintro ⟨error, refused⟩
      rw [bound] at refused
      cases refused
    · rintro ⟨other, adjoins, overlaps⟩
      exact absurd overlaps (apart other adjoins)

theorem attempt_cases (bus : Bus) (base : UInt64) (id : DeviceId) :
    bus.Refuses base id ∧ bus.attempt base id = bus ∨
      ¬ bus.Refuses base id ∧ (bus.attempt base id).devices = bus.devices ∧
        (bus.attempt base id).windows.toList = bus.below base ++ bus.asked base id :: bus.above base := by
  rcases bind_cases bus base id with ⟨⟨error, refused⟩, _⟩ | ⟨_, bound⟩
  · refine .inl ⟨⟨error, refused⟩, ?_⟩
    rw [attempt, refused]
  · refine .inr ⟨?_, ?_⟩
    · rintro ⟨error, refused⟩
      rw [bound] at refused
      cases refused
    · rw [attempt, bound]
      exact ⟨rfl, windows_inserted bus base _⟩

-- The windows are in the order of their starts.
def Sorted (bus : Bus) : Prop :=
  bus.windows.toList.Pairwise fun a b => a.start ≤ b.start

-- No address lies in two windows.
def Disjoint (bus : Bus) : Prop :=
  bus.windows.toList.Pairwise fun a b => ¬ a.Shares b

def Secluded (bus : Bus) : Prop :=
  bus.windows.toList.Pairwise fun a b => a.start = b.start → ¬ a.Empty ∧ ¬ b.Empty

def Spread (bus : Bus) : Prop :=
  bus.windows.toList.Pairwise fun a b => a.stop ≤ b.start

theorem below_start {bus : Bus} {base : UInt64} {window : Window} (member : window ∈ bus.below base) :
    window.start < base :=
  of_decide_eq_true (List.all_eq_true.mp List.all_takeWhile window member)

theorem first_start {bus : Bus} {base : UInt64} {first : Window} (found : (bus.above base).head? = some first) :
    base ≤ first.start := by
  unfold above at found
  have ends := List.head?_dropWhile_not (fun window : Window => decide (window.start < base)) bus.windows.toList
  rw [found] at ends
  exact UInt64.not_lt.mp (of_decide_eq_false ends)

theorem above_start {bus : Bus} (sorted : bus.Sorted) {base : UInt64} {first : Window}
    (found : (bus.above base).head? = some first) {window : Window} (member : window ∈ bus.above base) :
    first.start ≤ window.start := by
  unfold Sorted at sorted
  rw [← bus.below_above base] at sorted
  obtain ⟨_, behind, _⟩ := List.pairwise_append.mp sorted
  obtain ⟨rest, same⟩ := List.head?_eq_some_iff.mp found
  rw [same] at behind member
  rcases List.mem_cons.mp member with rfl | later
  · exact UInt64.le_refl _
  · exact (List.pairwise_cons.mp behind).1 window later

theorem above_of_first {bus : Bus} (sorted : bus.Sorted) {base : UInt64} {window : Window}
    (member : window ∈ bus.above base) :
    ∃ first, (bus.above base).head? = some first ∧ base ≤ first.start ∧ first.start ≤ window.start := by
  cases found : (bus.above base).head? with
  | none =>
    rw [List.head?_eq_none_iff.mp found] at member
    cases member
  | some first => exact ⟨first, rfl, first_start found, above_start sorted found member⟩

theorem pairwise_inserted {relation : Window → Window → Prop} {lower upper : List Window} {added : Window} :
    (lower ++ added :: upper).Pairwise relation ↔
      (lower ++ upper).Pairwise relation ∧ (∀ a ∈ lower, relation a added) ∧ ∀ b ∈ upper, relation added b := by
  simp only [List.pairwise_append, List.pairwise_cons, List.forall_mem_cons]
  constructor
  · rintro ⟨first, ⟨added, second⟩, across⟩
    exact ⟨⟨first, second, fun a member => (across a member).2⟩, fun a member => (across a member).1, added⟩
  · rintro ⟨⟨first, second, across⟩, before, behind⟩
    exact ⟨first, ⟨behind, second⟩, fun a member => ⟨before a member, across a member⟩⟩

theorem attempt_sorted {bus : Bus} (sorted : bus.Sorted) (base : UInt64) (id : DeviceId) :
    (bus.attempt base id).Sorted := by
  rcases attempt_cases bus base id with ⟨_, same⟩ | ⟨_, _, inserted⟩
  · rw [same]
    exact sorted
  · unfold Sorted
    rw [inserted, pairwise_inserted, below_above]
    refine ⟨sorted, fun window member => UInt64.le_of_lt (below_start member), fun window member => ?_⟩
    obtain ⟨first, _, low, high⟩ := above_of_first sorted member
    exact UInt64.le_trans low high

theorem attempts_sorted {bus : Bus} (sorted : bus.Sorted) (calls : List (UInt64 × DeviceId)) :
    (bus.attempts calls).Sorted := by
  induction calls generalizing bus with
  | nil => exact sorted
  | cons call rest ih => exact ih (attempt_sorted sorted call.1 call.2)

theorem attempt_secluded {bus : Bus} {base : UInt64} {id : DeviceId} (secluded : (bus.attempt base id).Secluded) :
    bus.Secluded := by
  rcases attempt_cases bus base id with ⟨_, same⟩ | ⟨_, _, inserted⟩
  · rw [same] at secluded
    exact secluded
  · unfold Secluded at secluded ⊢
    rw [inserted, pairwise_inserted, below_above] at secluded
    exact secluded.1

theorem attempts_secluded {bus : Bus} (calls : List (UInt64 × DeviceId)) (secluded : (bus.attempts calls).Secluded) :
    bus.Secluded := by
  induction calls generalizing bus with
  | nil => exact secluded
  | cons call rest ih => exact attempt_secluded (ih secluded)

theorem Spread.disjoint {bus : Bus} (spread : bus.Spread) : bus.Disjoint := by
  refine List.Pairwise.imp (fun {a b} ends => ?_) spread
  intro shares
  obtain ⟨_, early⟩ := Window.overlaps_iff.mp shares.overlaps
  exact UInt64.lt_irrefl _ (UInt64.lt_of_lt_of_le early ends)

theorem below_stop {bus : Bus} (spread : bus.Spread) {base : UInt64} {last window : Window}
    (found : (bus.below base).getLast? = some last) (short : last.stop ≤ base) (member : window ∈ bus.below base) :
    window.stop ≤ base := by
  obtain ⟨others, same⟩ := List.getLast?_eq_some_iff.mp found
  have start := below_start (List.mem_of_getLast? found)
  unfold Spread at spread
  rw [← bus.below_above base, same] at spread
  rw [same] at member
  obtain ⟨inside, _, _⟩ := List.pairwise_append.mp spread
  rcases List.mem_append.mp member with early | here
  · have ends := (List.pairwise_append.mp inside).2.2 window early last (List.mem_singleton_self last)
    exact UInt64.le_of_lt (UInt64.lt_of_le_of_lt ends start)
  · rw [List.mem_singleton.mp here]
    exact short

theorem first_filled {base : UInt64} {first : Window} (low : base ≤ first.start)
    (filled : ¬ (first.start = base ∧ first.Empty)) : base < first.stop := by
  refine UInt64.not_le.mp fun short => filled ⟨?_, Window.empty_iff.mpr (UInt64.le_trans short low)⟩
  exact UInt64.le_antisymm (UInt64.le_trans first.start_le_stop short) low

theorem attempt_spread {bus : Bus} (sorted : bus.Sorted) (spread : bus.Spread) {base : UInt64} {id : DeviceId}
    (secluded : (bus.attempt base id).Secluded) : (bus.attempt base id).Spread := by
  rcases attempt_cases bus base id with ⟨_, same⟩ | ⟨accepted, _, inserted⟩
  · rw [same]
    exact spread
  unfold Secluded at secluded
  unfold Spread
  rw [inserted, pairwise_inserted, below_above] at secluded ⊢
  have free : ∀ other, bus.Adjoins base other → ¬ (bus.asked base id).overlaps other = true :=
    fun other adjoins overlaps => accepted (refuses_iff.mpr ⟨other, adjoins, overlaps⟩)
  have ends : base ≤ (bus.asked base id).stop := (bus.asked base id).start_le_stop
  refine ⟨spread, fun window member => ?_, fun window member => ?_⟩
  · cases found : (bus.below base).getLast? with
    | none =>
      rw [List.getLast?_eq_none_iff.mp found] at member
      cases member
    | some last =>
      refine below_stop spread found (UInt64.not_lt.mp fun reaches => ?_) member
      have start := below_start (List.mem_of_getLast? found)
      exact free last (.inl found) (Window.overlaps_iff.mpr ⟨reaches, UInt64.lt_of_lt_of_le start ends⟩)
  · obtain ⟨first, found, low, high⟩ := above_of_first sorted member
    refine UInt64.le_trans (UInt64.not_lt.mp fun reaches => ?_) high
    have long := first_filled low fun ⟨here, empty⟩ =>
      (secluded.2.2 first (List.mem_of_head? found) here.symm).2 empty
    exact free first (.inr found) (Window.overlaps_iff.mpr ⟨long, reaches⟩)

theorem Spread.across {bus : Bus} (spread : bus.Spread) {base : UInt64} {lower upper : Window}
    (front : lower ∈ bus.below base) (rear : upper ∈ bus.above base) : lower.stop ≤ upper.start := by
  unfold Spread at spread
  rw [← bus.below_above base] at spread
  exact (List.pairwise_append.mp spread).2.2 lower front upper rear

theorem empty_hides {bus : Bus} (sorted : bus.Sorted) (spread : bus.Spread) (secluded : bus.Secluded) {base : UInt64}
    {id : DeviceId} {empty : Window} (present : empty ∈ bus.windows.toList) (here : empty.start = base)
    (nothing : empty.Empty) : ¬ bus.Refuses base id := by
  intro refused
  obtain ⟨other, adjoins, overlaps⟩ := refuses_iff.mp refused
  have long : base < other.stop := (Window.overlaps_iff.mp overlaps).1
  have upper : empty ∈ bus.above base := by
    rw [← bus.below_above base] at present
    rcases List.mem_append.mp present with front | rear
    · exact absurd (here ▸ below_start front) (UInt64.lt_irrefl _)
    · exact rear
  rcases adjoins with last | first
  · have ends := spread.across (List.mem_of_getLast? last) upper
    exact UInt64.lt_irrefl _ (UInt64.lt_of_lt_of_le long (here ▸ ends))
  · have same : other.start = empty.start :=
      UInt64.le_antisymm (above_start sorted first upper) (here ▸ first_start first)
    unfold Secluded at secluded
    obtain ⟨rest, split⟩ := List.head?_eq_some_iff.mp first
    rw [← bus.below_above base, split] at secluded
    rw [split] at upper
    obtain ⟨_, behind, _⟩ := List.pairwise_append.mp secluded
    rcases List.mem_cons.mp upper with rfl | later
    · exact UInt64.lt_irrefl _ (UInt64.lt_of_lt_of_le long (here ▸ Window.empty_iff.mp nothing))
    · exact ((List.pairwise_cons.mp behind).1 empty later same).2 nothing

theorem shared_refused {bus : Bus} (sorted : bus.Sorted) (spread : bus.Spread) {base : UInt64} {id : DeviceId}
    {window : Window} (member : window ∈ bus.windows.toList) (shares : (bus.asked base id).Shares window)
    (filled : ¬ ∃ other ∈ bus.windows.toList, other.start = base ∧ other.Empty) : bus.Refuses base id := by
  obtain ⟨reaches, reached⟩ := Window.overlaps_iff.mp shares.overlaps
  have ends : base ≤ (bus.asked base id).stop := (bus.asked base id).start_le_stop
  rw [← bus.below_above base] at member
  rcases List.mem_append.mp member with front | rear
  · cases found : (bus.below base).getLast? with
    | none =>
      rw [List.getLast?_eq_none_iff.mp found] at front
      cases front
    | some last =>
      have long : base < last.stop := by
        refine UInt64.not_le.mp fun short => ?_
        exact UInt64.lt_irrefl _ (UInt64.lt_of_lt_of_le reaches (below_stop spread found short front))
      have start := below_start (List.mem_of_getLast? found)
      exact refuses_iff.mpr ⟨last, .inl found, Window.overlaps_iff.mpr ⟨long, UInt64.lt_of_lt_of_le start ends⟩⟩
  · obtain ⟨first, found, low, high⟩ := above_of_first sorted rear
    have present : first ∈ bus.windows.toList := by
      rw [← bus.below_above base]
      exact List.mem_append_right _ (List.mem_of_head? found)
    have long := first_filled low fun empty => filled ⟨first, present, empty⟩
    exact refuses_iff.mpr ⟨first, .inr found, Window.overlaps_iff.mpr ⟨long, UInt64.lt_of_le_of_lt high reached⟩⟩

theorem attempts_spread {bus : Bus} (sorted : bus.Sorted) (spread : bus.Spread) (calls : List (UInt64 × DeviceId))
    (secluded : (bus.attempts calls).Secluded) : (bus.attempts calls).Spread := by
  induction calls generalizing bus with
  | nil => exact spread
  | cons call rest ih =>
    refine ih (attempt_sorted sorted call.1 call.2) (attempt_spread sorted spread ?_) secluded
    exact attempts_secluded rest secluded

/-- However the windows of devices are bound, they stay in the order of their starts, and a binding
that is refused changes nothing. While a window without addresses shares its start with no other, no
address lies in two windows, and a window that would share an address with one that is there is
refused, unless it starts where a window without addresses does. -/
theorem attempts_disjoint (devices : Array Device) (calls : List (UInt64 × DeviceId)) :
    let bus := attempts { devices := devices } calls
    bus.Sorted ∧
      (∀ base id, bus.Refuses base id → bus.attempt base id = bus) ∧
      (bus.Secluded → bus.Disjoint ∧
        ∀ base id, (∃ window ∈ bus.windows.toList, (bus.asked base id).Shares window) →
          (bus.Refuses base id ↔ ¬ ∃ other ∈ bus.windows.toList, other.start = base ∧ other.Empty)) := by
  intro bus
  have blankSorted : Sorted { devices := devices } := List.Pairwise.nil
  have blankSpread : Spread { devices := devices } := List.Pairwise.nil
  have sorted : bus.Sorted := attempts_sorted blankSorted calls
  refine ⟨sorted, ?_, fun secluded => ?_⟩
  · rintro base id ⟨error, refused⟩
    rw [attempt, refused]
  · have spread : bus.Spread := attempts_spread blankSorted blankSpread calls secluded
    refine ⟨spread.disjoint, fun base id shared => ?_⟩
    obtain ⟨window, member, shares⟩ := shared
    constructor
    · rintro refused ⟨other, present, here, nothing⟩
      exact empty_hides sorted spread secluded present here nothing refused
    · exact shared_refused sorted spread member shares

def threeMemories : Array Device :=
  #[.ram (.ofSize 0), .ram (.ofSize 1), .ram (.ofSize 8)]

def besideEmpty : Bus :=
  attempts { devices := threeMemories } [(0x1000, 0), (0x1004, 1)]

theorem besideEmpty_windows : besideEmpty.windows.toList = [⟨0x1000, 0, 0⟩, ⟨0x1004, 1, 1⟩] := by
  decide +kernel

theorem besideEmpty_shares {base : UInt64} (low : base ≤ 0x1004) (high : 0x1004 < (besideEmpty.asked base 2).stop) :
    ∃ window ∈ besideEmpty.windows.toList, (besideEmpty.asked base 2).Shares window := by
  rw [besideEmpty_windows]
  exact ⟨⟨0x1004, 1, 1⟩, by simp, 0x1004, Window.has_iff.mpr ⟨low, high⟩, by decide⟩

theorem attempts_disjoint_beside_empty :
    besideEmpty.Secluded ∧ besideEmpty.Disjoint ∧ besideEmpty.Refuses 0x1003 2 ∧ ¬ besideEmpty.Refuses 0x1000 2 := by
  have secluded : besideEmpty.Secluded := by
    unfold Secluded
    rw [besideEmpty_windows]
    simp
  obtain ⟨disjoint, refuses⟩ := (attempts_disjoint threeMemories [(0x1000, 0), (0x1004, 1)]).2.2 secluded
  refine ⟨secluded, disjoint, ?_, ?_⟩
  · refine (refuses 0x1003 2 (besideEmpty_shares (by decide) (by decide +kernel))).mpr ?_
    rintro ⟨other, present, here, _⟩
    change other ∈ besideEmpty.windows.toList at present
    rw [besideEmpty_windows] at present
    simp at present
    rcases present with rfl | rfl <;> exact absurd here (by decide)
  · intro refused
    have present : ⟨0x1000, 0, 0⟩ ∈ besideEmpty.windows.toList := by
      rw [besideEmpty_windows]
      exact List.mem_cons_self
    have empty : Window.Empty ⟨0x1000, 0, 0⟩ := Window.empty_iff.mpr (by decide)
    exact (refuses 0x1000 2 (besideEmpty_shares (by decide) (by decide +kernel))).mp refused ⟨_, present, rfl, empty⟩

theorem attempts_overlapping :
    ¬ (attempts { devices := threeMemories } [(0x1000, 0), (0x1004, 1), (0x1000, 2)]).Disjoint := by
  have windows : (attempts { devices := threeMemories } [(0x1000, 0), (0x1004, 1), (0x1000, 2)]).windows.toList =
      [⟨0x1000, 8, 2⟩, ⟨0x1000, 0, 0⟩, ⟨0x1004, 1, 1⟩] := by
    decide +kernel
  unfold Disjoint
  rw [windows]
  intro disjoint
  have apart := (List.pairwise_cons.mp disjoint).1 ⟨0x1004, 1, 1⟩ (by simp)
  exact apart ⟨0x1004, by decide, by decide⟩

end Bus

end RvBoard
