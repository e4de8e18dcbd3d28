import RvBoard.Proofs.AddressMap
import RvBoard.Proofs.Bits
import RvBoard.Proofs.Board.Deeds

/-!
# Free places on the bus

The search for a free place looks at the windows in their order and moves a candidate behind each one that it runs
into. What it finds is the lowest aligned place at which a new window shares no address with another and encloses none
without addresses, and there a binding succeeds.
-/

set_option autoImplicit false

namespace RvBoard

-- The lowest address at which something holds.
def Lowest (holds : UInt64 → Prop) (a : UInt64) : Prop :=
  holds a ∧ ∀ b, holds b → a ≤ b

theorem Lowest.unique {holds : UInt64 → Prop} {a b : UInt64} (first : Lowest holds a) (second : Lowest holds b) : a = b :=
  UInt64.le_antisymm (first.2 b second.1) (second.2 a first.1)

theorem checkedAdd_eq_none {a b : UInt64} (sum : checkedAdd a b = none) : UInt64.size ≤ a.toNat + b.toNat := by
  unfold checkedAdd at sum
  split at sum
  · cases sum
  · next exceeds => exact Nat.not_lt.mp exceeds

theorem word_max_eq (a b : UInt64) : max a b = a ∨ max a b = b := by
  change (if a ≤ b then b else a) = a ∨ (if a ≤ b then b else a) = b
  split
  · exact .inr rfl
  · exact .inl rfl

theorem word_max_le {a b c : UInt64} : max a b ≤ c ↔ a ≤ c ∧ b ≤ c := by
  change (if a ≤ b then b else a) ≤ c ↔ _
  by_cases less : a ≤ b
  · rw [if_pos less]
    exact ⟨fun second => ⟨UInt64.le_trans less second, second⟩, And.right⟩
  · rw [if_neg less]
    exact ⟨fun first => ⟨first, UInt64.le_trans (UInt64.le_of_lt (UInt64.not_le.mp less)) first⟩, And.left⟩

namespace Window

def Clears (window : Window) (a : UInt64) (n : Nat) : Prop :=
  window.stop ≤ a ∨ a.toNat + n ≤ window.start.toNat

-- None of some addresses lies in the window, and it is not a window without addresses that starts behind the first.
structure Spares (window : Window) (a : UInt64) (n : Nat) : Prop where
  unshared : ∀ b, a ≤ b → b.toNat < a.toNat + n → window.has b = false
  unenclosed : window.Empty → ¬ (a < window.start ∧ window.start.toNat < a.toNat + n)

section Spared

variable {window : Window} {a : UInt64} {n : Nat}

theorem Clears.spares (clears : window.Clears a n) : window.Spares a n where
  unshared b above below := by
    rw [← Bool.not_eq_true, Window.has_iff]
    rintro ⟨inside, short⟩
    rw [UInt64.le_iff_toNat_le] at above inside
    rw [UInt64.lt_iff_toNat_lt] at short
    rcases clears with behind | before
    · rw [UInt64.le_iff_toNat_le] at behind
      omega
    · omega
  unenclosed := by
    rintro empty ⟨above, below⟩
    rw [UInt64.lt_iff_toNat_lt] at above
    have short := UInt64.le_iff_toNat_le.mp window.start_le_stop
    rcases clears with behind | before
    · rw [UInt64.le_iff_toNat_le] at behind
      omega
    · omega

theorem Spares.clears (spares : window.Spares a n) (positive : 0 < n) : window.Clears a n := by
  refine Classical.byContradiction fun blocked => ?_
  obtain ⟨high, low⟩ := not_or.mp blocked
  rw [UInt64.not_le] at high
  rw [Nat.not_le] at low
  by_cases empty : window.Empty
  · exact spares.unenclosed empty ⟨UInt64.lt_of_lt_of_le high (Window.empty_iff.mp empty), low⟩
  have filled : window.start < window.stop := UInt64.not_le.mp fun short => empty (Window.empty_iff.mpr short)
  rcases UInt64.le_total a window.start with above | below
  · have unheld := spares.unshared window.start above low
    rw [Window.has_iff.mpr ⟨UInt64.le_refl _, filled⟩] at unheld
    cases unheld
  · have unheld := spares.unshared a (UInt64.le_refl _) (by omega)
    rw [Window.has_iff.mpr ⟨below, high⟩] at unheld
    cases unheld

end Spared

end Window

namespace Bus

section Alignment

variable {align address : UInt64} {exponent : Nat} (power : align.toNat = 2 ^ exponent)

include power

theorem toNat_align_pred : (align - 1).toNat = 2 ^ exponent - 1 := by
  have positive := Nat.two_pow_pos exponent
  rw [UInt64.toNat_sub_of_le _ _ (UInt64.le_iff_toNat_le.mpr (by rw [power]; exact positive)), power]
  rfl

theorem alignUp_some {a : UInt64} (up : alignUp align address = some a) :
    Lowest (fun b => address ≤ b ∧ align.toNat ∣ b.toNat) a := by
  obtain ⟨sum, added, same⟩ := Option.map_eq_some_iff.mp up
  have whole := checkedAdd_eq_some added
  have place : a.toNat = sum.toNat / 2 ^ exponent * 2 ^ exponent := by
    rw [← same, toNat_high (toNat_align_pred power)]
  rw [toNat_align_pred power] at whole
  have positive := Nat.two_pow_pos exponent
  have split := Nat.div_add_mod' sum.toNat (2 ^ exponent)
  have rest := Nat.mod_lt sum.toNat positive
  refine ⟨⟨UInt64.le_iff_toNat_le.mpr (by omega), ?_⟩, ?_⟩
  · rw [power, place]
    exact Nat.dvd_mul_left ..
  · rintro b ⟨above, multiple⟩
    rw [UInt64.le_iff_toNat_le] at above ⊢
    rw [power] at multiple
    obtain ⟨k, equal⟩ := multiple
    rw [place, equal, Nat.mul_comm]
    refine Nat.mul_le_mul_left _ (Nat.lt_succ_iff.mp ((Nat.div_lt_iff_lt_mul positive).mpr ?_))
    rw [Nat.succ_mul, Nat.mul_comm]
    omega

theorem alignUp_none (up : alignUp align address = none) {b : UInt64} (above : address ≤ b) :
    ¬ align.toNat ∣ b.toNat := by
  have exceeds := checkedAdd_eq_none (Option.map_eq_none_iff.mp up)
  rw [toNat_align_pred power] at exceeds
  rw [power]
  rintro ⟨k, equal⟩
  rw [UInt64.le_iff_toNat_le] at above
  have bound := b.toNat_lt
  have positive := Nat.two_pow_pos exponent
  have small : exponent < 64 := (Nat.pow_lt_pow_iff_right (by decide)).mp (power ▸ align.toNat_lt)
  have all : (2 : Nat) ^ 64 = 2 ^ exponent * 2 ^ (64 - exponent) := by
    rw [← Nat.pow_add]
    congr 1
    omega
  have below : k < 2 ^ (64 - exponent) := Nat.lt_of_mul_lt_mul_left (a := 2 ^ exponent) (by omega)
  have next : 2 ^ exponent * (k + 1) ≤ 2 ^ exponent * 2 ^ (64 - exponent) := Nat.mul_le_mul_left _ below
  rw [Nat.mul_succ] at next
  have size : UInt64.size = 2 ^ 64 := rfl
  omega

def Goes (size align candidate : UInt64) (windows : List Window) (a : UInt64) : Prop :=
  candidate ≤ a ∧ align.toNat ∣ a.toNat ∧ ∀ window ∈ windows, window.Clears a size.toNat

omit power in
theorem goes_before {size candidate : UInt64} {window : Window} {rest : List Window}
    (sorted : (window :: rest).Pairwise fun a b => a.start ≤ b.start) (aligned : align.toNat ∣ candidate.toNat)
    (before : candidate.toNat + size.toNat ≤ window.start.toNat) :
    Lowest (Goes size align candidate (window :: rest)) candidate := by
  refine ⟨⟨UInt64.le_refl _, aligned, fun other member => .inr ?_⟩, fun b goes => goes.1⟩
  rcases List.mem_cons.mp member with rfl | later
  · exact before
  · exact Nat.le_trans before (UInt64.le_iff_toNat_le.mp ((List.pairwise_cons.mp sorted).1 other later))

theorem goes_behind {size candidate stop : UInt64} {window : Window} {rest : List Window}
    (blocked : window.start.toNat < candidate.toNat + size.toNat) (up : alignUp align window.stop = some stop) (b : UInt64) :
    Goes size align candidate (window :: rest) b ↔ Goes size align (max candidate stop) rest b := by
  obtain ⟨⟨behind, _⟩, least⟩ := alignUp_some power up
  constructor
  · rintro ⟨above, multiple, clears⟩
    obtain ⟨here, later⟩ := List.forall_mem_cons.mp clears
    have cleared : window.stop ≤ b := by
      refine here.resolve_right ?_
      rw [UInt64.le_iff_toNat_le] at above
      omega
    exact ⟨word_max_le.mpr ⟨above, least b ⟨cleared, multiple⟩⟩, multiple, later⟩
  · rintro ⟨above, multiple, clears⟩
    obtain ⟨first, second⟩ := word_max_le.mp above
    exact ⟨first, multiple, List.forall_mem_cons.mpr ⟨.inl (UInt64.le_trans behind second), clears⟩⟩

-- The search ends at the lowest of these places, and fails when none of them ends at an address. Induction on the windows
-- ahead: the candidate is the lowest place that is left, and it only moves behind a window that stands in its way.
theorem skipWindows_lowest {size candidate : UInt64} {windows : List Window}
    (sorted : windows.Pairwise fun a b => a.start ≤ b.start) (aligned : align.toNat ∣ candidate.toNat) :
    match skipWindows size align candidate windows with
    | some a => Lowest (Goes size align candidate windows) a
    | none => ∀ b, Goes size align candidate windows b → UInt64.size ≤ b.toNat + size.toNat := by
  induction windows generalizing candidate with
  | nil => exact ⟨⟨UInt64.le_refl _, aligned, by simp⟩, fun b goes => goes.1⟩
  | cons window rest ih =>
    cases sum : checkedAdd candidate size with
    | none =>
      have exceeds := checkedAdd_eq_none sum
      simp only [skipWindows, sum, Option.bind_eq_bind, Option.bind_none]
      intro b goes
      have above := UInt64.le_iff_toNat_le.mp goes.1
      omega
    | some stop =>
      have ends := checkedAdd_eq_some sum
      by_cases before : stop ≤ window.start
      · simp only [skipWindows, sum, Option.bind_eq_bind, Option.bind_some, if_pos before]
        exact goes_before sorted aligned (ends ▸ UInt64.le_iff_toNat_le.mp before)
      · have blocked : window.start.toNat < candidate.toNat + size.toNat :=
          ends ▸ UInt64.lt_iff_toNat_lt.mp (UInt64.not_le.mp before)
        cases up : alignUp align window.stop with
        | none =>
          simp only [skipWindows, sum, up, Option.bind_eq_bind, Option.bind_some, Option.bind_none, if_neg before]
          rintro b ⟨above, multiple, clears⟩
          refine absurd multiple (alignUp_none power up ?_)
          refine (clears window List.mem_cons_self).resolve_right ?_
          rw [UInt64.le_iff_toNat_le] at above
          omega
        | some place =>
          simp only [skipWindows, sum, up, Option.bind_eq_bind, Option.bind_some, if_neg before]
          have further : align.toNat ∣ (max candidate place).toNat := by
            rcases word_max_eq candidate place with same | same
            · rw [same]
              exact aligned
            · rw [same]
              exact (alignUp_some power up).1.2
          have same : Goes size align candidate (window :: rest) = Goes size align (max candidate place) rest :=
            funext fun b => propext (goes_behind power blocked up b)
          rw [same]
          exact ih (List.pairwise_cons.mp sorted).2 further

end Alignment

-- Where a new window of some size fits between two addresses.
structure Fits (bus : Bus) (size first limit align a : UInt64) : Prop where
  above : first ≤ a
  aligned : align.toNat ∣ a.toNat
  below : a.toNat + size.toNat ≤ limit.toNat
  spared : ∀ window ∈ bus.windows.toList, window.Spares a size.toNat

section Search

variable {bus : Bus} {size first limit align : UInt64}

theorem fits_iff {start a : UInt64} (positive : 0 < size.toNat)
    (low : Lowest (fun b => first ≤ b ∧ align.toNat ∣ b.toNat) start) :
    bus.Fits size first limit align a ↔
      Goes size align start (bus.windows.toList.filter fun window => first < window.stop) a ∧
        a.toNat + size.toNat ≤ limit.toNat := by
  constructor
  · rintro ⟨above, aligned, below, spared⟩
    refine ⟨⟨low.2 a ⟨above, aligned⟩, aligned, fun window member => ?_⟩, below⟩
    exact (spared window (List.mem_filter.mp member).1).clears positive
  · rintro ⟨⟨above, aligned, clears⟩, below⟩
    have higher : first ≤ a := UInt64.le_trans low.1.1 above
    refine ⟨higher, aligned, below, fun window member => Window.Clears.spares ?_⟩
    by_cases reaches : first < window.stop
    · exact clears window (List.mem_filter.mpr ⟨member, decide_eq_true reaches⟩)
    · exact .inl (UInt64.le_trans (UInt64.not_lt.mp reaches) higher)

theorem within_limit (a : UInt64) :
    ((checkedAdd a size).bind fun stop => if stop ≤ limit then some a else none) =
      if a.toNat + size.toNat ≤ limit.toNat then some a else none := by
  have bound := limit.toNat_lt_size
  cases sum : checkedAdd a size with
  | none =>
    have exceeds := checkedAdd_eq_none sum
    rw [Option.bind_none, if_neg (by omega)]
  | some stop =>
    simp only [Option.bind_some, UInt64.le_iff_toNat_le, checkedAdd_eq_some sum]

theorem findFree_lowest (sorted : bus.Sorted) (positive : 0 < size.toNat) {exponent : Nat}
    (power : align.toNat = 2 ^ exponent) :
    match bus.findFree? size first limit align with
    | some a => Lowest (bus.Fits size first limit align) a
    | none => ∀ a, ¬ bus.Fits size first limit align a := by
  cases up : alignUp align first with
  | none =>
    simp only [findFree?, up, Option.bind_eq_bind, Option.bind_none]
    exact fun a fits => alignUp_none power up fits.above fits.aligned
  | some start =>
    have low := alignUp_some power up
    have found := @skipWindows_lowest align exponent power size start _
      (List.Pairwise.filter (fun window => first < window.stop) sorted) low.1.2
    simp only [findFree?, up, Option.bind_eq_bind, Option.bind_some]
    cases skipped : skipWindows size align start (bus.windows.toList.filter fun window => first < window.stop) with
    | none =>
      rw [skipped] at found
      intro a fits
      obtain ⟨goes, below⟩ := (fits_iff positive low).mp fits
      have exceeds := found a goes
      have bound := limit.toNat_lt_size
      omega
    | some candidate =>
      rw [skipped] at found
      simp only [Option.bind_some, within_limit]
      by_cases inside : candidate.toNat + size.toNat ≤ limit.toNat
      · rw [if_pos inside]
        exact ⟨(fits_iff positive low).mpr ⟨found.1, inside⟩, fun a fits => found.2 a ((fits_iff positive low).mp fits).1⟩
      · rw [if_neg inside]
        intro a fits
        obtain ⟨goes, below⟩ := (fits_iff positive low).mp fits
        have lower := UInt64.le_iff_toNat_le.mp (found.2 a goes)
        omega

theorem findFree_eq_some_iff (sorted : bus.Sorted) (positive : 0 < size.toNat) {exponent : Nat}
    (power : align.toNat = 2 ^ exponent) {a : UInt64} :
    bus.findFree? size first limit align = some a ↔ Lowest (bus.Fits size first limit align) a := by
  have search := @findFree_lowest bus size first limit align sorted positive exponent power
  constructor
  · intro found
    rw [found] at search
    exact search
  · intro lowest
    cases found : bus.findFree? size first limit align with
    | none =>
      rw [found] at search
      exact absurd lowest.1 (search a)
    | some other =>
      rw [found] at search
      rw [search.unique lowest]

theorem findFree_eq_none_iff (sorted : bus.Sorted) (positive : 0 < size.toNat) {exponent : Nat}
    (power : align.toNat = 2 ^ exponent) :
    bus.findFree? size first limit align = none ↔ ¬ ∃ a, bus.Fits size first limit align a := by
  have search := @findFree_lowest bus size first limit align sorted positive exponent power
  cases found : bus.findFree? size first limit align with
  | none =>
    rw [found] at search
    exact ⟨fun _ ⟨a, fits⟩ => search a fits, fun _ => rfl⟩
  | some a =>
    rw [found] at search
    exact ⟨nofun, fun full => absurd ⟨a, search.1⟩ full⟩

theorem Fits.binds {a : UInt64} {id : DeviceId} (fits : bus.Fits size first limit align a) (positive : 0 < size.toNat)
    (sized : (bus.asked a id).size = size) : ∃ next, bus.bind a id = .ok next ∧
      next.windows.toList = bus.below a ++ ⟨a, size, id⟩ :: bus.above a := by
  have whole : (bus.asked a id).stop.toNat = a.toNat + size.toNat := by
    have below := fits.below
    have bound := limit.toNat_lt_size
    rw [Window.stop, toNat_saturatingAdd, sized]
    change min (a.toNat + size.toNat) _ = _
    omega
  rcases bind_cases bus a id with ⟨_, other, adjoins, overlaps⟩ | ⟨_, bound⟩
  · have member : other ∈ bus.windows.toList := by
      rw [← bus.below_above a]
      rcases adjoins with last | next
      · exact List.mem_append_left _ (List.mem_of_getLast? last)
      · exact List.mem_append_right _ (List.mem_of_head? next)
    obtain ⟨reaches, reached⟩ := Window.overlaps_iff.mp overlaps
    rcases (fits.spared other member).clears positive with behind | before
    · exact absurd reaches (UInt64.not_lt.mpr behind)
    · rw [UInt64.lt_iff_toNat_lt, whole] at reached
      exact absurd before (Nat.not_le.mpr reached)
  · refine ⟨_, bound, ?_⟩
    rw [windows_inserted, asked, ← sized]
    rfl

theorem Fits.joins {board : Board} {device : Device} {a : UInt64} (fits : board.bus.Fits device.size first limit align a)
    (positive : 0 < device.size.toNat) (still : board.wasReset = false) :
    ∃ id next, board.addDevice (some a) device = .ok (id, next) ∧
      next.bus.windows.toList = board.bus.below a ++ ⟨a, device.size, id⟩ :: board.bus.above a := by
  have later : (board.bus.addDevice device).2.Fits device.size first limit align a :=
    ⟨fits.above, fits.aligned, fits.below, fits.spared⟩
  obtain ⟨next, bound, windows⟩ := later.binds positive (show ((board.bus.addDevice device).2.asked a board.bus.devices.size).size = _ by
    simp [asked, device?, addDevice])
  refine ⟨board.bus.devices.size,
    { board.mapBus (fun _ => next) with devices := board.devices.push board.bus.devices.size }, ?_, windows⟩
  unfold Board.addDevice
  rw [still]
  change (do
    let bus ← ((board.bus.addDevice device).2.bind a board.bus.devices.size).mapError BoardError.overlap
    return (board.bus.devices.size,
      { board.mapBus (fun _ => bus) with devices := board.devices.push board.bus.devices.size })) = _
  rw [bound]
  rfl

theorem addMmioDevice_of_found {board : Board} {device : Device} {a : UInt64}
    (found : board.bus.findFree? device.size Board.mmioFirst Board.mmioLimit Board.mmioAlign = some a) :
    board.addMmioDevice device = (board.addDevice (some a) device).map fun added => ((a, added.1), added.2) := by
  unfold Board.addMmioDevice
  rw [found]
  dsimp only
  cases board.addDevice (some a) device <;> rfl

theorem addMmioDevice_of_full {board : Board} {device : Device}
    (full : board.bus.findFree? device.size Board.mmioFirst Board.mmioLimit Board.mmioAlign = none) :
    board.addMmioDevice device = .error (.noMmioSpace device.size) := by
  unfold Board.addMmioDevice
  rw [full]
  rfl

theorem Fits.admits {board : Board} {device : Device} {a : UInt64}
    (fits : board.bus.Fits device.size first limit align a) (positive : 0 < device.size.toNat) (wanted : UInt64) :
    board.addDevice (some a) device ≠ .error (.noMmioSpace wanted) := by
  intro failed
  cases closed : board.wasReset with
  | true =>
    rw [Board.addDevice_closed closed] at failed
    cases failed
  | false =>
    obtain ⟨id, next, added, _⟩ := fits.joins positive closed
    rw [added] at failed
    cases failed

theorem mmioAlign_power : Board.mmioAlign.toNat = 2 ^ 12 := by
  decide

theorem addMmioDevice_full_iff {board : Board} {device : Device} {wanted : UInt64} (sorted : board.bus.Sorted)
    (positive : 0 < device.size.toNat) :
    board.addMmioDevice device = .error (.noMmioSpace wanted) ↔ wanted = device.size ∧
      ¬ ∃ a, board.bus.Fits device.size Board.mmioFirst Board.mmioLimit Board.mmioAlign a := by
  cases found : board.bus.findFree? device.size Board.mmioFirst Board.mmioLimit Board.mmioAlign with
  | none =>
    rw [addMmioDevice_of_full found, ← findFree_eq_none_iff sorted positive mmioAlign_power]
    constructor
    · intro failed
      cases failed
      exact ⟨rfl, found⟩
    · rintro ⟨rfl, _⟩
      rfl
  | some place =>
    have there := ((findFree_eq_some_iff sorted positive mmioAlign_power).mp found).1
    rw [addMmioDevice_of_found found]
    refine ⟨fun failed => ?_, fun full => absurd ⟨place, there⟩ full.2⟩
    cases added : board.addDevice (some place) device with
    | ok _ =>
      rw [added] at failed
      cases failed
    | error error =>
      rw [added] at failed
      cases failed
      exact absurd added (there.admits positive wanted)

/-- On a bus whose windows are in the order of their starts, the search for a free place finds the lowest aligned
address in its range at which so many addresses are free, if there is one: none of them lies in a window, and they do not
enclose one without addresses. A device of this size can be bound there, and a board puts it there while it takes
devices; that it has no room for one is said only when there is no such place. -/
theorem findFree_first_fit (sorted : bus.Sorted) (positive : 0 < size) {exponent : Nat}
    (power : align.toNat = 2 ^ exponent) :
    (∀ a, bus.findFree? size first limit align = some a ↔ Lowest (bus.Fits size first limit align) a) ∧
    (bus.findFree? size first limit align = none ↔ ¬ ∃ a, bus.Fits size first limit align a) ∧
    (∀ a id, bus.findFree? size first limit align = some a → (bus.asked a id).size = size →
      ∃ next, bus.bind a id = .ok next ∧ next.windows.toList = bus.below a ++ ⟨a, size, id⟩ :: bus.above a) ∧
    ∀ (board : Board) (device : Device), board.bus = bus → device.size = size →
      let fits := bus.Fits size Board.mmioFirst Board.mmioLimit Board.mmioAlign
      (∀ wanted, board.addMmioDevice device = .error (.noMmioSpace wanted) ↔ wanted = size ∧ ¬ ∃ a, fits a) ∧
      (board.wasReset = false → ∀ a, Lowest fits a → ∃ id next, board.addMmioDevice device = .ok ((a, id), next) ∧
        next.bus.windows.toList = bus.below a ++ ⟨a, size, id⟩ :: bus.above a) := by
  have positive : 0 < size.toNat := UInt64.lt_iff_toNat_lt.mp positive
  refine ⟨fun a => findFree_eq_some_iff sorted positive power, findFree_eq_none_iff sorted positive power,
    fun a id found sized => ?_, ?_⟩
  · exact ((findFree_eq_some_iff sorted positive power).mp found).1.binds positive sized
  · rintro board device rfl rfl fits
    refine ⟨fun wanted => addMmioDevice_full_iff sorted positive, fun still a lowest => ?_⟩
    obtain ⟨id, next, added, windows⟩ := lowest.1.joins positive still
    refine ⟨id, next, ?_, windows⟩
    rw [addMmioDevice_of_found ((findFree_eq_some_iff sorted positive mmioAlign_power).mpr lowest), added]
    rfl

end Search

def gapped : Bus :=
  attempts { devices := #[.controller {}, .controller {}, .controller {}] } [(0x10000000, 0), (0x10002000, 1)]

theorem findFree_first_fit_between :
    gapped.Sorted ∧ gapped.findFree? 0x1000 0x10000000 0x20000000 0x1000 = some 0x10001000 ∧
      Lowest (gapped.Fits 0x1000 0x10000000 0x20000000 0x1000) 0x10001000 ∧
      (∃ next, gapped.bind 0x10001000 2 = .ok next) ∧
      ∃ id next, (Board.mapBus (fun _ => gapped) {}).addMmioDevice (.controller {}) = .ok ((0x10001000, id), next) := by
  have windows : gapped.windows.toList = [⟨0x10000000, 0x1000, 0⟩, ⟨0x10002000, 0x1000, 1⟩] := by decide +kernel
  have sorted : gapped.Sorted := by
    unfold Sorted
    rw [windows]
    decide
  have found : gapped.findFree? 0x1000 0x10000000 0x20000000 0x1000 = some 0x10001000 := by decide +kernel
  obtain ⟨lowest, _, binds, board⟩ := @findFree_first_fit gapped 0x1000 0x10000000 0x20000000 0x1000 sorted (by decide)
    12 (by decide)
  have there := (lowest _).mp found
  obtain ⟨next, bound, _⟩ := binds _ 2 found (by decide +kernel)
  obtain ⟨id, joined, added, _⟩ :=
    (board (Board.mapBus (fun _ => gapped) {}) (.controller {}) rfl rfl).2 rfl _ there
  exact ⟨sorted, found, there, ⟨next, bound⟩, id, joined, added⟩

def hollow : Bus :=
  attempts { devices := #[.ram (.ofSize 0)] } [(0x1800, 0)]

theorem findFree_beside_empty :
    hollow.Sorted ∧ hollow.Disjoint ∧
      ¬ ((∃ a, hollow.findFree? 0x1000 0x1000 0x2000 0x1000 = some a) ↔
        ∃ a : UInt64, 0x1000 ≤ a ∧ 0x1000 ∣ a.toNat ∧ a.toNat + 0x1000 ≤ 0x2000 ∧
          ∀ window ∈ hollow.windows.toList, ∀ b, a ≤ b → b.toNat < a.toNat + 0x1000 → window.has b = false) := by
  have windows : hollow.windows.toList = [⟨0x1800, 0, 0⟩] := by decide +kernel
  have nothing : hollow.findFree? 0x1000 0x1000 0x2000 0x1000 = none := by decide +kernel
  have empty : Window.Empty ⟨0x1800, 0, 0⟩ := Window.empty_iff.mpr (by decide)
  refine ⟨?_, ?_, fun claimed => ?_⟩
  · unfold Sorted
    rw [windows]
    decide
  · unfold Disjoint
    rw [windows]
    exact List.pairwise_singleton ..
  · rw [nothing] at claimed
    obtain ⟨a, found⟩ := claimed.mpr ⟨0x1000, by decide, by decide, by decide, fun window member b _ _ => by
      rw [windows, List.mem_singleton] at member
      rw [member]
      exact empty b⟩
    cases found

end Bus

end RvBoard
