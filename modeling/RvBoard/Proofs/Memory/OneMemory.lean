import RvBoard.Proofs.Memory.ByteViews
import RvBoard.Proofs.Steady

/-!
# A bus with one memory

Where a bus shows one memory and nothing else, a copy of bytes succeeds if every byte can be read or written by itself, and
what comes of it is the same. One that fails is refused as a whole, while bytes that are written one at a time get there
up to the first that cannot be.
-/

set_option autoImplicit false

namespace RvBoard.Bus

open Bytes (listOf)

-- The only window of the bus shows a memory.
def OneMemory (bus : Bus) : Prop :=
  ∃ window memory, bus.windows = #[window] ∧ bus.memory? window.device = some memory

structure Spans (bus : Bus) (window : Window) (memory : Ram) (address : UInt64) (n : Nat) : Prop where
  free : bus.held ≠ some window.device
  low : window.start.toNat ≤ address.toNat
  high : address.toNat + n ≤ window.stop.toNat
  inside : address.toNat - window.start.toNat + n ≤ memory.data.size

section Spans

variable {bus : Bus} {window : Window} {memory : Ram} {address : UInt64} {n : Nat}

theorem window_alone (alone : bus.windows = #[window]) (positive : 0 < n) :
    bus.window? address n = if window.contains address n then some window else none := by
  have first : bus.find? address = if window.has address then some window else none := by
    have small : ¬ 1 < #[window].size := Nat.lt_irrefl 1
    rw [find?, alone, search, if_neg small]
    exact Option.filter_some
  have has (holds : window.contains address n = true) : window.has address = true := by
    simp only [Window.contains, Window.has, Bool.and_eq_true, decide_eq_true_eq] at holds ⊢
    exact ⟨holds.1, UInt64.lt_iff_toNat_lt.mpr (by omega)⟩
  rw [window?, first]
  by_cases holds : window.contains address n = true
  · rw [if_pos holds, if_pos (has holds), Option.filter_some, if_pos holds]
  · rw [if_neg holds]
    split
    · rw [Option.filter_some, if_neg holds]
    · rfl

theorem contains_toNat : window.contains address n = true ↔
    window.start.toNat ≤ address.toNat ∧ address.toNat + n ≤ window.stop.toNat := by
  simp only [Window.contains, Bool.and_eq_true, decide_eq_true_eq, UInt64.le_iff_toNat_le]

variable (alone : bus.windows = #[window]) (present : bus.memory? window.device = some memory)

include alone present

theorem Spans.lies (spans : Spans bus window memory address n) : bus.Lies ⟨address, n⟩ window memory := by
  have low := spans.low
  have high := spans.high
  refine ⟨fun {start count} positive above below => ?_, spans.free, present, ?_⟩
  · rw [UInt64.le_iff_toNat_le] at above
    dsimp only at above below
    rw [window_alone alone positive, if_pos (contains_toNat.mpr ⟨by omega, by omega⟩)]
  · have place : offset window address = address.toNat - window.start.toNat :=
      UInt64.toNat_sub_of_le _ _ (UInt64.le_iff_toNat_le.mpr low)
    rw [place]
    exact spans.inside

theorem access_beyond {α : Type} {fault : MemFault} {access : Window → Device → Wires → Access α}
    (short : ¬ offset window address + n ≤ memory.data.size →
      access window (.ram memory) bus.wires = (.error fault, .ram memory, bus.wires))
    (positive : 0 < n) (beyond : ¬ Spans bus window memory address n) :
    (match bus.window? address n with
      | none => EStateM.Result.error fault bus
      | some window => withDevice window.device fault (access window) bus) = .error fault bus := by
  rw [window_alone alone positive]
  by_cases holds : window.contains address n = true
  · rw [if_pos holds]
    dsimp only
    by_cases busy : bus.held = some window.device
    · rw [withDevice, if_pos busy]
    · obtain ⟨low, high⟩ := contains_toNat.mp holds
      have place : offset window address = address.toNat - window.start.toNat :=
        UInt64.toNat_sub_of_le _ _ (UInt64.le_iff_toNat_le.mpr low)
      have outside : ¬ offset window address + n ≤ memory.data.size := by
        rw [place]
        exact fun inside => beyond ⟨busy, low, high, inside⟩
      have device := device_of_memory present
      rw [withDevice_run _ _ busy device, short outside, settle_same _ device]
      rfl
  · rw [if_neg holds]

theorem load_beyond (beyond : ¬ Spans bus window memory address 1) : load address 0 bus = .error .loadAccess bus := by
  rw [load, refused_none (Nat.zero_le 3) (by simp [aligned, byteCount, Nat.mod_one])]
  refine access_beyond alone present (fun outside => ?_) (byteCount_pos 0) beyond
  have short : Bytes.holds memory.data (address - window.start).toNat (byteCount 0) = false := decide_eq_false outside
  simp only [Device.load, Ram.load, Bytes.word?, short, Bool.false_eq_true, if_false]

theorem store_beyond (value : UInt64) (beyond : ¬ Spans bus window memory address 1) :
    store address 0 value bus = .error .storeAccess bus := by
  rw [store, refused_none (Nat.zero_le 3) (by simp [aligned, byteCount, Nat.mod_one])]
  refine access_beyond alone present (fun outside => ?_) (byteCount_pos 0) beyond
  have short : Bytes.holds memory.data (address - window.start).toNat (byteCount 0) = false := decide_eq_false outside
  simp only [Device.store, Ram.store, short, Bool.false_eq_true, if_false]

theorem readBytes_beyond (positive : 0 < n) (beyond : ¬ Spans bus window memory address n) :
    readBytes address n bus = .error .loadAccess bus := by
  rw [readBytes, if_neg (Nat.ne_of_gt positive)]
  refine access_beyond alone present (fun outside => ?_) positive beyond
  have short : Bytes.holds memory.data (address - window.start).toNat n = false := decide_eq_false outside
  simp only [Device.readBytes, Ram.readBytes, Bytes.slice?, short, Bool.false_eq_true, if_false]

theorem writeBytes_beyond {bytes : ByteArray} (positive : 0 < bytes.size)
    (beyond : ¬ Spans bus window memory address bytes.size) : writeBytes address bytes bus = .error .storeAccess bus := by
  have full : bytes.isEmpty = false := beq_eq_false_iff_ne.mpr (Nat.ne_of_gt positive)
  rw [writeBytes, full, if_neg Bool.false_ne_true]
  refine access_beyond alone present (fun outside => ?_) positive beyond
  have short : Bytes.holds memory.data (address - window.start).toNat bytes.size = false := decide_eq_false outside
  simp only [Device.writeBytes, Ram.writeBytes, short, Bool.false_eq_true, if_false]

end Spans

section Singly

variable {bus : Bus} {window : Window} {memory : Ram} {address : UInt64} {n : Nat}

theorem beyond_tail (positive : 0 < n) (bound : address.toNat + (n + 1) ≤ UInt64.size)
    (beyond : ¬ Spans bus window memory address (n + 1)) (first : Spans bus window memory address 1) :
    ¬ Spans bus window memory (address + 1) n ∧ (address + 1).toNat + n ≤ UInt64.size := by
  have below : address.toNat + 1 < UInt64.size := Nat.lt_of_lt_of_le (by omega) bound
  have next : (address + 1).toNat = address.toNat + 1 := by
    rw [UInt64.toNat_add]
    exact Nat.mod_eq_of_lt below
  rw [next]
  refine ⟨fun rest => beyond ⟨first.free, first.low, ?_, ?_⟩, by omega⟩
  · have high := rest.high
    rw [next] at high
    omega
  · have low := first.low
    have inside := rest.inside
    rw [next] at inside
    omega

theorem readSingly_beyond (alone : bus.windows = #[window]) (present : bus.memory? window.device = some memory)
    (positive : 0 < n) (bound : address.toNat + n ≤ UInt64.size) (beyond : ¬ Spans bus window memory address n) :
    readSingly address n bus = .error .loadAccess bus := by
  induction n generalizing address with
  | zero => cases positive
  | succ n ih =>
    rw [readSingly]
    by_cases first : Spans bus window memory address 1
    · have more : 0 < n := by
        rcases Nat.eq_zero_or_pos n with rfl | more
        · exact absurd first beyond
        · exact more
      obtain ⟨rest, below⟩ := beyond_tail more bound beyond first
      rw [bind_of_ok (load_in_memory (first.lies alone present).first), bind_of_error (ih more below rest)]
    · rw [bind_of_error (load_beyond alone present first)]

theorem writeSingly_beyond {bytes : List UInt8} (alone : bus.windows = #[window])
    (present : bus.memory? window.device = some memory) (full : bytes ≠ [])
    (bound : address.toNat + bytes.length ≤ UInt64.size) (beyond : ¬ Spans bus window memory address bytes.length) :
    ∃ broken, writeSingly address bytes bus = .error .storeAccess broken := by
  induction bytes generalizing bus address memory with
  | nil => exact absurd rfl full
  | cons byte rest ih =>
    rw [writeSingly]
    by_cases first : Spans bus window memory address 1
    · have more : rest ≠ [] := fun none => beyond (by rw [none]; exact first)
      obtain ⟨later, below⟩ := beyond_tail (List.length_pos_iff.mpr more) bound beyond first
      have inside := (first.lies alone present).first
      rw [bind_of_ok (store_in_memory byte.toUInt64 inside)]
      have replaced : (bus.replace window.device (.ram ⟨Bytes.putWord memory.data (offset window address) (byteCount 0)
          byte.toUInt64⟩) bus.wires).memory? window.device = some ⟨Bytes.putWord memory.data (offset window address)
            (byteCount 0) byte.toUInt64⟩ := by
        rw [memory_replace _ _ _ _ _ inside.known, if_pos rfl]
        rfl
      refine ih alone replaced more below fun spans => later ⟨spans.free, spans.low, spans.high, ?_⟩
      exact Bytes.size_putWord memory.data _ _ _ ▸ spans.inside
    · exact ⟨bus, bind_of_error (store_beyond alone present _ first)⟩

end Singly

section Copies

variable {bus : Bus} {address : UInt64}

theorem readBytes_singly (one : OneMemory bus) {n : Nat} (bound : address.toNat + n ≤ UInt64.size) :
    (∃ block, readBytes address n bus = .ok block bus ∧ readSingly address n bus = .ok (listOf block) bus) ∨
      readBytes address n bus = .error .loadAccess bus ∧ readSingly address n bus = .error .loadAccess bus := by
  obtain ⟨window, memory, alone, present⟩ := one
  by_cases spans : Spans bus window memory address n
  · have lies := spans.lies alone present
    refine .inl ⟨_, readBytes_lies lies, ?_⟩
    rw [readSingly_lies lies, Bytes.listOf_extract, Nat.add_sub_cancel_left]
  rcases Nat.eq_zero_or_pos n with rfl | positive
  · exact .inl ⟨ByteArray.empty, rfl, rfl⟩
  · exact .inr ⟨readBytes_beyond alone present positive spans, readSingly_beyond alone present positive bound spans⟩

/-- Bytes that are copied at once are written as they are one at a time, or none of them is and one of them cannot be. -/
theorem writeBytes_singly (one : OneMemory bus) {bytes : ByteArray} (bound : address.toNat + bytes.size ≤ UInt64.size) :
    (∃ next, writeBytes address bytes bus = .ok () next ∧ writeSingly address (listOf bytes) bus = .ok () next) ∨
      writeBytes address bytes bus = .error .storeAccess bus ∧
        ∃ broken, writeSingly address (listOf bytes) bus = .error .storeAccess broken := by
  obtain ⟨window, memory, alone, present⟩ := one
  have length := Bytes.length_listOf bytes
  by_cases spans : Spans bus window memory address bytes.size
  · exact .inl (writeBytes_lies (spans.lies alone present))
  rcases Nat.eq_zero_or_pos bytes.size with empty | positive
  · have none : listOf bytes = [] := List.length_eq_zero_iff.mp (length.trans empty)
    have nothing : bytes.isEmpty = true := beq_iff_eq.mpr empty
    refine .inl ⟨bus, ?_, ?_⟩
    · rw [writeBytes, if_pos nothing]
    · rw [none]
      rfl
  · have full : listOf bytes ≠ [] := List.length_pos_iff.mp (length ▸ positive)
    exact .inr ⟨writeBytes_beyond alone present positive spans,
      writeSingly_beyond alone present full (length.symm ▸ bound) (length.symm ▸ spans)⟩

theorem memory_closed : Device.Closed fun device _ next _ => device.memory?.isSome = true → next.memory?.isSome = true where
  refl _ _ := id
  trans first second start := second (first start)
  load device _ _ _ start := by
    cases device with
    | ram memory => rfl
    | _ => cases start
  store device _ _ _ _ start := by
    cases device with
    | ram memory => rfl
    | _ => cases start
  written _ _ _ := id

theorem oneMemory_steady : Steady OneMemory := by
  refine memory_closed.bus fun {bus id device next after} present allowed one => ?_
  obtain ⟨window, memory, alone, there⟩ := one
  have known := device_known present
  refine ⟨window, ?_⟩
  have still : ((bus.replace id next after).memory? window.device).isSome = true := by
    rw [memory_replace _ _ _ _ _ known]
    by_cases here : id = window.device
    · rw [if_pos here]
      refine allowed ?_
      rw [← memory_of_device present, here, there]
      rfl
    · rw [if_neg here, there]
      rfl
  obtain ⟨contents, same⟩ := Option.isSome_iff_exists.mp still
  exact ⟨contents, alone, same⟩

end Copies

end RvBoard.Bus
