import Mathlib.Data.List.Chain
import RvBoard.Proofs.AddressMap
import RvBoard.Proofs.Bus

/-!
# Lookup

Whatever is bound, a window that starts below the next one ends before that one starts, also where windows without
addresses have hidden others from each other. So bisection finds the last window that starts at an address or below it,
and a window that is found at an address is found at all its further addresses.
-/

set_option autoImplicit false

namespace RvBoard.Bus

def Stepped (bus : Bus) : Prop :=
  bus.windows.toList.IsChain fun a b => a.start < b.start → a.stop ≤ b.start

def Fitted (bus : Bus) : Prop :=
  ∀ window ∈ bus.windows.toList, window = bus.asked window.start window.device

-- A map of the address space that bindings have made for the devices that are there.
def Bound (bus : Bus) : Prop :=
  ∃ calls, bus.windows = (attempts { devices := bus.devices } calls).windows

section Binding

variable {bus : Bus}

theorem attempt_stepped (stepped : bus.Stepped) (base : UInt64) (id : DeviceId) : (bus.attempt base id).Stepped := by
  rcases attempt_cases bus base id with ⟨_, same⟩ | ⟨accepted, _, inserted⟩
  · rw [same]
    exact stepped
  unfold Stepped at stepped ⊢
  rw [← bus.below_above base, List.isChain_append] at stepped
  obtain ⟨lower, upper, _⟩ := stepped
  have free : ∀ other, bus.Adjoins base other → ¬ (bus.asked base id).overlaps other = true :=
    fun other adjoins overlaps => accepted (refuses_iff.mpr ⟨other, adjoins, overlaps⟩)
  have ends : base ≤ (bus.asked base id).stop := (bus.asked base id).start_le_stop
  rw [inserted, List.isChain_append, List.isChain_cons]
  refine ⟨lower, ⟨fun next first before => ?_, upper⟩, fun last found _ added before => ?_⟩
  · refine UInt64.not_lt.mp fun reaches => free next (.inr first) (Window.overlaps_iff.mpr ⟨?_, reaches⟩)
    exact UInt64.lt_of_lt_of_le before next.start_le_stop
  · cases Option.mem_some.mp added
    refine UInt64.not_lt.mp fun reaches => free last (.inl found) (Window.overlaps_iff.mpr ⟨reaches, ?_⟩)
    exact UInt64.lt_of_lt_of_le before ends

theorem attempt_fitted (fitted : bus.Fitted) (base : UInt64) (id : DeviceId) : (bus.attempt base id).Fitted := by
  rcases attempt_cases bus base id with ⟨_, same⟩ | ⟨_, devices, inserted⟩
  · rw [same]
    exact fitted
  intro window member
  have asked (start : UInt64) (id' : DeviceId) : (bus.attempt base id).asked start id' = bus.asked start id' := by
    rw [Bus.asked, Bus.asked, device?, device?, devices]
  rw [asked]
  rw [inserted, List.mem_append, List.mem_cons] at member
  rcases member with lower | rfl | upper
  · exact fitted window (bus.below_above base ▸ List.mem_append_left _ lower)
  · rfl
  · exact fitted window (bus.below_above base ▸ List.mem_append_right _ upper)

theorem attempt_devices {devices : Array Device} (same : bus.devices = devices) (base : UInt64) (id : DeviceId) :
    (bus.attempt base id).devices = devices := by
  rcases attempt_cases bus base id with ⟨_, refused⟩ | ⟨_, kept, _⟩
  · rw [refused, same]
  · rw [kept, same]

theorem attempts_keep {holds : Bus → Prop} (keeps : ∀ {bus : Bus}, holds bus → ∀ base id, holds (bus.attempt base id))
    {bus : Bus} (first : holds bus) (calls : List (UInt64 × DeviceId)) : holds (bus.attempts calls) := by
  induction calls generalizing bus with
  | nil => exact first
  | cons call rest ih => exact ih (keeps first call.1 call.2)

theorem Bound.sorted (bound : bus.Bound) : bus.Sorted := by
  obtain ⟨calls, made⟩ := bound
  have sorted := attempts_sorted (show Sorted { devices := bus.devices } from List.Pairwise.nil) calls
  unfold Sorted at sorted ⊢
  rw [made]
  exact sorted

theorem Bound.stepped (bound : bus.Bound) : bus.Stepped := by
  obtain ⟨calls, made⟩ := bound
  have stepped := attempts_keep attempt_stepped (show Stepped { devices := bus.devices } from List.isChain_nil) calls
  unfold Stepped at stepped ⊢
  rw [made]
  exact stepped

theorem Bound.fitted (bound : bus.Bound) : bus.Fitted := by
  obtain ⟨calls, made⟩ := bound
  have fitted := attempts_keep attempt_fitted (show Fitted { devices := bus.devices } from nofun) calls
  have devices : (attempts { devices := bus.devices } calls).devices = bus.devices :=
    @attempts_keep (fun next => next.devices = bus.devices) attempt_devices { devices := bus.devices } rfl calls
  intro window member
  have placed := fitted window (made ▸ member)
  rw [asked, device?, devices] at placed
  exact placed

theorem Bound.fits (bound : bus.Bound) {window : Window} (member : window ∈ bus.windows) {memory : Ram}
    (present : bus.memory? window.device = some memory) : window.size.toNat ≤ memory.data.size := by
  have placed := bound.fitted window (Array.mem_toList_iff.mpr member)
  have size : window.size = UInt64.ofNat memory.data.size := by
    rw [placed, asked, device?, device_of_memory present]
    rfl
  rw [size]
  exact Nat.mod_le ..

end Binding

section Searching

variable {bus : Bus} {address other : UInt64} {window : Window}

theorem Sorted.le (sorted : bus.Sorted) {i j : Nat} {a b : Window} (before : i ≤ j) (first : bus.windows[i]? = some a)
    (second : bus.windows[j]? = some b) : a.start ≤ b.start := by
  obtain ⟨_, rfl⟩ := Array.getElem?_eq_some_iff.mp first
  obtain ⟨_, rfl⟩ := Array.getElem?_eq_some_iff.mp second
  rcases Nat.lt_or_eq_of_le before with less | rfl
  · exact List.pairwise_iff_getElem.mp sorted i j _ _ less
  · exact UInt64.le_refl _

structure Final (bus : Bus) (address : UInt64) (i : Nat) (window : Window) : Prop where
  here : bus.windows[i]? = some window
  beyond : ∀ j later, i < j → bus.windows[j]? = some later → address < later.start

theorem search_final (sorted : bus.Sorted) {first count : Nat}
    (found : search bus.windows address first count = some window)
    (behind : ∀ j later, first + count ≤ j → bus.windows[j]? = some later → address < later.start) :
    ∃ i, bus.Final address i window := by
  induction first, count using search.induct bus.windows address with
  | case1 first count large half middle present below ih =>
    rw [search, if_pos large] at found
    simp only [half, present, below, if_true] at found
    refine ih found fun j later inside there => ?_
    exact UInt64.lt_of_lt_of_le below (sorted.le (by omega) present there)
  | case2 first count large half middle present notBelow ih =>
    rw [search, if_pos large] at found
    simp only [half, present, notBelow, if_false] at found
    exact ih found fun j later inside there => behind j later (by omega) there
  | case3 first count large half absent =>
    rw [search, if_pos large] at found
    simp only [half, absent] at found
    cases found
  | case4 first count small =>
    rw [search, if_neg small] at found
    exact ⟨first, found, fun j later inside there => behind j later (by omega) there⟩

theorem Final.search (sorted : bus.Sorted) {i first count : Nat} (final : bus.Final address i window)
    (low : window.start ≤ address) (above : first ≤ i) (below : i < first + count)
    (inside : first + count ≤ bus.windows.size) : search bus.windows address first count = some window := by
  induction first, count using search.induct bus.windows address with
  | case1 first count large half middle present less ih =>
    have left : i < first + half := by
      refine Nat.lt_of_not_le fun right => ?_
      exact UInt64.lt_irrefl _ (UInt64.lt_of_lt_of_le less (UInt64.le_trans (sorted.le right present final.here) low))
    rw [Bus.search, if_pos large]
    simp only [half, present, less, if_true]
    exact ih above (by omega) (by omega)
  | case2 first count large half middle present more ih =>
    have right : first + half ≤ i :=
      Nat.le_of_not_lt fun left => more (final.beyond _ _ left present)
    rw [Bus.search, if_pos large]
    simp only [half, present, more, if_false]
    exact ih right (by omega) (by omega)
  | case3 first count large half absent =>
    have outside := Array.getElem?_eq_none_iff.mp absent
    omega
  | case4 first count small =>
    have same : first = i := by omega
    rw [Bus.search, if_neg small, same, final.here]

theorem Final.further (sorted : bus.Sorted) (stepped : bus.Stepped) {i : Nat} (final : bus.Final address i window)
    (low : window.start ≤ address) (short : other < window.stop) : bus.Final other i window := by
  refine ⟨final.here, fun j later behind there => ?_⟩
  obtain ⟨inside, _⟩ := Array.getElem?_eq_some_iff.mp there
  have next : i + 1 < bus.windows.size := by omega
  have start := final.beyond (i + 1) _ (Nat.lt_succ_self i) (Array.getElem?_eq_getElem next)
  obtain ⟨known, here⟩ := Array.getElem?_eq_some_iff.mp final.here
  have ends : bus.windows[i].start < bus.windows[i + 1].start → bus.windows[i].stop ≤ bus.windows[i + 1].start :=
    List.isChain_iff_getElem.mp stepped i next
  rw [here] at ends
  exact UInt64.lt_of_lt_of_le (UInt64.lt_of_lt_of_le short (ends (UInt64.lt_of_le_of_lt low start)))
    (sorted.le behind (Array.getElem?_eq_getElem next) there)

theorem find_further (sorted : bus.Sorted) (stepped : bus.Stepped) (found : bus.find? address = some window)
    (above : address ≤ other) (short : other < window.stop) : bus.find? other = some window := by
  obtain ⟨searched, has⟩ := Option.filter_eq_some_iff.mp found
  obtain ⟨low, _⟩ := Window.has_iff.mp has
  have whole (j : Nat) (later : Window) (behind : 0 + bus.windows.size ≤ j) (there : bus.windows[j]? = some later) :
      address < later.start := by
    have inside := (Array.getElem?_eq_some_iff.mp there).1
    omega
  obtain ⟨i, final⟩ := search_final sorted searched whole
  have inside := (Array.getElem?_eq_some_iff.mp final.here).1
  have lower := UInt64.le_trans low above
  have again : search bus.windows other 0 bus.windows.size = some window :=
    (final.further sorted stepped low short).search sorted lower (Nat.zero_le i) (by omega) (by omega)
  rw [find?, again]
  exact Option.filter_eq_some_iff.mpr ⟨rfl, Window.has_iff.mpr ⟨lower, short⟩⟩

theorem window_part (sorted : bus.Sorted) (stepped : bus.Stepped) {n m : Nat}
    (found : bus.window? address n = some window) (positive : 0 < m) (above : address ≤ other)
    (below : other.toNat + m ≤ address.toNat + n) : bus.window? other m = some window := by
  obtain ⟨_, low, high⟩ := window_spec found
  obtain ⟨here, _⟩ := Option.filter_eq_some_iff.mp found
  have short : other < window.stop := UInt64.lt_iff_toNat_lt.mpr (by omega)
  rw [window?, find_further sorted stepped here above short]
  refine Option.filter_eq_some_iff.mpr ⟨rfl, ?_⟩
  simp only [Window.contains, Bool.and_eq_true, decide_eq_true_eq]
  exact ⟨UInt64.le_trans low above, by omega⟩

end Searching

end RvBoard.Bus
