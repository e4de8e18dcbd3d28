import RvBoard.Proofs.Cells
import RvBoard.Proofs.Outcome
import RvBoard.Virtio.Dma

/-!
# Buffers in memory

The buffers of a chain together make up one run of bytes, wherever the chain splits it. Gathering reads from its front,
and scattering lays bytes over it at an offset; no other byte of memory changes.
-/

set_option autoImplicit false

namespace RvBoard

open Bytes (listOf overlay)

namespace Bus

-- One memory answers every access in the area.
structure Lies (bus : Bus) (area : Area) (window : Window) (memory : Ram) : Prop where
  found : ∀ {address n}, 0 < n → area.start ≤ address → address.toNat + n ≤ area.start.toNat + area.size →
    bus.window? address n = some window
  free : bus.held ≠ some window.device
  present : bus.memory? window.device = some memory
  fits : offset window area.start + area.size ≤ memory.data.size

def InRam (bus : Bus) (area : Area) : Prop :=
  area.size = 0 ∨ ∃ window memory, bus.Lies area window memory

def bytesAt (bus : Bus) (area : Area) : List UInt8 :=
  match bus.window? area.start area.size with
  | some window =>
    match bus.memory? window.device with
    | some memory => ((listOf memory.data).drop (offset window area.start)).take area.size
    | none => []
  | none => []

section Areas

variable {bus next : Bus} {area : Area} {window : Window} {memory : Ram} {region : Cell → Prop}

theorem bytesAt_empty (empty : area.size = 0) : bus.bytesAt area = [] := by
  unfold bytesAt
  rw [empty]
  split
  · split
    · exact List.take_zero
    · rfl
  · rfl

theorem Lies.whole (lies : bus.Lies area window memory) (positive : 0 < area.size) :
    bus.window? area.start area.size = some window :=
  lies.found positive (UInt64.le_refl _) (Nat.le_refl _)

theorem Lies.bytesAt (lies : bus.Lies area window memory) (positive : 0 < area.size) :
    bus.bytesAt area = ((listOf memory.data).drop (offset window area.start)).take area.size := by
  rw [Bus.bytesAt, lies.whole positive]
  simp only [lies.present]

theorem InRam.length (ram : bus.InRam area) : (bus.bytesAt area).length = area.size := by
  rcases Nat.eq_zero_or_pos area.size with empty | positive
  · rw [bytesAt_empty empty, empty]
    rfl
  · obtain ⟨window, memory, lies⟩ := ram.resolve_left (Nat.ne_of_gt positive)
    have fits := lies.fits
    rw [lies.bytesAt positive, List.length_take, List.length_drop, Bytes.length_listOf]
    omega

theorem Lies.place (lies : bus.Lies area window memory) {address : UInt64} {k n : Nat} (positive : 0 < n)
    (here : address.toNat = area.start.toNat + k) (inside : k + n ≤ area.size) :
    bus.window? address n = some window ∧ offset window address = offset window area.start + k := by
  have above : area.start ≤ address := UInt64.le_iff_toNat_le.mpr (by omega)
  have found := lies.found positive above (by omega)
  have place := offset_address found
  have start := offset_address (lies.whole (by omega))
  exact ⟨found, by omega⟩

theorem Lies.backed (lies : bus.Lies area window memory) {address : UInt64} {k n : Nat}
    (here : address.toNat = area.start.toNat + k) (positive : 0 < n) (inside : k + n ≤ area.size) :
    Backed bus address n window memory := by
  obtain ⟨found, place⟩ := lies.place positive here inside
  have fits := lies.fits
  exact ⟨found, lies.free, lies.present, by omega⟩

theorem InRam.reads (ram : bus.InRam area) {n : Nat} (inside : n ≤ area.size) :
    ∃ bytes, readBytes area.start n bus = .ok bytes bus ∧ listOf bytes = (bus.bytesAt area).take n := by
  rcases Nat.eq_zero_or_pos n with rfl | positive
  · exact ⟨ByteArray.empty, rfl, (List.take_zero).symm⟩
  · obtain ⟨window, memory, lies⟩ := ram.resolve_left (by omega)
    have backed : Backed bus area.start n window memory := lies.backed (Nat.add_zero _).symm positive (by omega)
    refine ⟨_, readBytes_backed backed positive, ?_⟩
    rw [Bytes.listOf_extract, Nat.add_sub_cancel_left, lies.bytesAt (by omega), List.take_take, Nat.min_eq_left inside]

theorem InRam.short (ram : bus.InRam area) (positive : 0 < area.size) : area.start.toNat + area.size < UInt64.size := by
  obtain ⟨window, memory, lies⟩ := ram.resolve_left (Nat.ne_of_gt positive)
  exact Nat.lt_of_le_of_lt (window_spec (lies.whole positive)).2.2 window.stop.toNat_lt

theorem Lies.confined (lies : bus.Lies area window memory) (confined : Confined region bus next) :
    ∃ contents, next.Lies area window contents ∧ contents.data.size = memory.data.size ∧
      ∀ i, ¬ region (window.device, i) → contents.data.get! i = memory.data.get! i := by
  obtain ⟨contents, after, size, same⟩ := confined.memories _ _ lies.present
  refine ⟨contents, ⟨fun positive above below => ?_, ?_, after, ?_⟩, size, same⟩
  · rw [confined.window]
    exact lies.found positive above below
  · rw [confined.held]
    exact lies.free
  · rw [size]
    exact lies.fits

theorem InRam.confined (ram : bus.InRam area) (confined : Confined region bus next) : next.InRam area := by
  rcases ram with empty | ⟨window, memory, lies⟩
  · exact .inl empty
  · obtain ⟨contents, after, _⟩ := lies.confined confined
    exact .inr ⟨window, contents, after⟩

theorem Confined.bytesAt (confined : Confined region bus next) (ram : bus.InRam area)
    (apart : ∀ cell, bus.Covers area cell → ¬ region cell) : next.bytesAt area = bus.bytesAt area := by
  rcases Nat.eq_zero_or_pos area.size with empty | positive
  · rw [bytesAt_empty empty, bytesAt_empty empty]
  · obtain ⟨window, memory, lies⟩ := ram.resolve_left (Nat.ne_of_gt positive)
    obtain ⟨contents, after, size, same⟩ := lies.confined confined
    have fits := lies.fits
    have equal := Bytes.slice_congr contents.data memory.data (offset window area.start) area.size size
      fun i above below => same i (apart _ (.reach (UInt64.le_refl _) (Nat.le_refl _) (lies.whole positive) ⟨above, below⟩))
    have holds : Bytes.holds memory.data (offset window area.start) area.size = true := decide_eq_true fits
    have holds' : Bytes.holds contents.data (offset window area.start) area.size = true := decide_eq_true (size ▸ fits)
    rw [Bytes.slice?, Bytes.slice?, if_pos holds, if_pos holds', Option.some.injEq] at equal
    have lists := congrArg listOf equal
    rw [Bytes.listOf_extract, Bytes.listOf_extract, Nat.add_sub_cancel_left] at lists
    rw [after.bytesAt positive, lies.bytesAt positive, lists]

theorem Lies.replace (lies : bus.Lies area window memory) (wires : Wires) {data : ByteArray}
    (size : data.size = memory.data.size) :
    (bus.replace window.device (.ram ⟨data⟩) wires).Lies area window ⟨data⟩ := by
  refine ⟨lies.found, lies.free, ?_, ?_⟩
  · rw [memory_replace _ _ _ _ _ (device_known (device_of_memory lies.present)), if_pos rfl]
    rfl
  · rw [size]
    exact lies.fits

theorem InRam.writes (ram : bus.InRam area) {address : UInt64} {k : Nat} {bytes : ByteArray} (positive : 0 < bytes.size)
    (here : address.toNat = area.start.toNat + k) (inside : k + bytes.size ≤ area.size) :
    ∃ next, writeBytes address bytes bus = .ok () next ∧ next.bytesAt area = overlay (bus.bytesAt area) k (listOf bytes) ∧
      Confined (bus.Covers area) bus next := by
  obtain ⟨window, memory, lies⟩ := ram.resolve_left (by omega)
  obtain ⟨_, place⟩ := lies.place positive here inside
  have written := writeBytes_backed (lies.backed here positive inside) positive
  have present := device_of_memory lies.present
  have fits := lies.fits
  refine ⟨_, written, ?_, ?_⟩
  · have whole : 0 < area.size := by omega
    have after := lies.replace bus.wires (Bytes.size_splice memory.data (offset window address) bytes (by omega))
    rw [after.bytesAt whole, lies.bytesAt whole, Bytes.listOf_splice _ _ _ (by omega), place,
      Bytes.overlay_part _ _ (by rw [Bytes.length_listOf]; exact inside) (by rw [Bytes.length_listOf]; exact fits)]
  · have inArea : Confined (bus.Covers area) bus (left (writeBytes address bytes bus)) :=
      writeBytes_confined address bytes bus fun cell covered =>
        covered.within (UInt64.le_iff_toNat_le.mpr (by dsimp only; omega)) (by dsimp only; omega)
    rw [written] at inArea
    exact inArea

end Areas

section OneMemory

variable {start : UInt64} {memory : Ram} {area : Area}

theorem ofMemory_lies (fits : start.toNat + memory.data.size < UInt64.size) (positive : 0 < area.size)
    (above : start ≤ area.start) (below : area.start.toNat + area.size ≤ start.toNat + memory.data.size) :
    (ofMemory start memory).Lies area ⟨start, UInt64.ofNat memory.data.size, 0⟩ memory := by
  have place := offset_address (ofMemory_window fits positive above below)
  refine ⟨fun some higher lower => ofMemory_window fits some (UInt64.le_trans above higher) (by omega),
    by simp [ofMemory], rfl, ?_⟩
  dsimp only at place
  omega

theorem ofMemory_inRam (fits : start.toNat + memory.data.size < UInt64.size) (above : start ≤ area.start)
    (below : area.start.toNat + area.size ≤ start.toNat + memory.data.size) : (ofMemory start memory).InRam area := by
  rcases Nat.eq_zero_or_pos area.size with empty | positive
  · exact .inl empty
  · exact .inr ⟨_, _, ofMemory_lies fits positive above below⟩

theorem ofMemory_bytesAt (fits : start.toNat + memory.data.size < UInt64.size) (above : start ≤ area.start)
    (below : area.start.toNat + area.size ≤ start.toNat + memory.data.size) :
    (ofMemory start memory).bytesAt area =
      ((listOf memory.data).drop (area.start.toNat - start.toNat)).take area.size := by
  rcases Nat.eq_zero_or_pos area.size with empty | positive
  · rw [bytesAt_empty empty, empty, List.take_zero]
  · have place := offset_address (ofMemory_window fits positive above below)
    rw [(ofMemory_lies fits positive above below).bytesAt positive, ← place, Nat.add_sub_cancel]

end OneMemory

end Bus

namespace Virtio

def Descriptor.area (descriptor : Descriptor) : Bus.Area :=
  ⟨descriptor.address, descriptor.length.toNat⟩

def bytesIn (bus : Bus) (buffers : List Descriptor) : List UInt8 :=
  buffers.flatMap fun descriptor => bus.bytesAt descriptor.area

def cellsOf (bus : Bus) (buffers : List Descriptor) (cell : Bus.Cell) : Prop :=
  ∃ descriptor ∈ buffers, bus.Covers descriptor.area cell

-- Buffers that lie in memory, and apart from each other.
def InRam (bus : Bus) (buffers : List Descriptor) : Prop :=
  ∀ descriptor ∈ buffers, bus.InRam descriptor.area

def KeptApart (bus : Bus) (buffers : List Descriptor) : Prop :=
  buffers.Pairwise fun first second => bus.Apart first.area second.area

section Buffers

variable {bus next : Bus} {buffers : List Descriptor} {region : Bus.Cell → Prop}

theorem bytesIn_cons (bus : Bus) (descriptor : Descriptor) (buffers : List Descriptor) :
    bytesIn bus (descriptor :: buffers) = bus.bytesAt descriptor.area ++ bytesIn bus buffers :=
  List.flatMap_cons

theorem totalLength_cons (descriptor : Descriptor) (buffers : List Descriptor) :
    Chain.totalLength (descriptor :: buffers) = descriptor.length.toNat + Chain.totalLength buffers :=
  rfl

theorem InRam.length (ram : InRam bus buffers) : (bytesIn bus buffers).length = Chain.totalLength buffers := by
  induction buffers with
  | nil => rfl
  | cons descriptor buffers ih =>
    obtain ⟨here, later⟩ := List.forall_mem_cons.mp ram
    rw [bytesIn_cons, List.length_append, here.length, ih later, totalLength_cons]
    rfl

theorem InRam.confined (ram : InRam bus buffers) (confined : Bus.Confined region bus next) : InRam next buffers :=
  fun descriptor member => (ram descriptor member).confined confined

theorem KeptApart.confined (kept : KeptApart bus buffers) (confined : Bus.Confined region bus next) :
    KeptApart next buffers :=
  kept.imp fun apart cell first second => apart cell (confined.covers first) (confined.covers second)

theorem cellsOf_first {descriptor : Descriptor} {cell : Bus.Cell} (covers : bus.Covers descriptor.area cell) :
    cellsOf bus (descriptor :: buffers) cell :=
  ⟨descriptor, List.mem_cons_self, covers⟩

theorem cellsOf_later {descriptor : Descriptor} {cell : Bus.Cell} (covered : cellsOf bus buffers cell) :
    cellsOf bus (descriptor :: buffers) cell := by
  obtain ⟨other, member, covers⟩ := covered
  exact ⟨other, List.mem_cons_of_mem _ member, covers⟩

theorem cellsOf_confined (confined : Bus.Confined region bus next) {cell : Bus.Cell} (covered : cellsOf next buffers cell) :
    cellsOf bus buffers cell := by
  obtain ⟨other, member, covers⟩ := covered
  exact ⟨other, member, confined.covers covers⟩

theorem bytesIn_confined (ram : InRam bus buffers) (confined : Bus.Confined region bus next)
    (apart : ∀ cell, cellsOf bus buffers cell → ¬ region cell) : bytesIn next buffers = bytesIn bus buffers := by
  have same : ∀ descriptor ∈ buffers, next.bytesAt descriptor.area = bus.bytesAt descriptor.area :=
    fun descriptor member =>
      confined.bytesAt (ram descriptor member) fun cell covered => apart cell ⟨descriptor, member, covered⟩
  rw [bytesIn, bytesIn, List.flatMap_def, List.flatMap_def, List.map_congr_left same]

theorem gather_reads (ram : InRam bus buffers) (out : ByteArray) (total : Nat) :
    ∃ bytes, gather out total buffers bus = .ok bytes bus ∧
      listOf bytes = listOf out ++ (bytesIn bus buffers).take total := by
  induction buffers generalizing out total with
  | nil => exact ⟨out, rfl, by simp [bytesIn]⟩
  | cons descriptor buffers ih =>
    obtain ⟨here, later⟩ := List.forall_mem_cons.mp ram
    rw [gather]
    by_cases enough : total = 0
    · rw [if_pos enough, enough, List.take_zero, List.append_nil]
      exact ⟨out, rfl, rfl⟩
    · rw [if_neg enough]
      obtain ⟨bytes, read, shows⟩ := here.reads (n := min descriptor.length.toNat total) (Nat.min_le_left ..)
      obtain ⟨gathered, rest, same⟩ := ih later (out ++ bytes) (total - min descriptor.length.toNat total)
      refine ⟨gathered, (bind_of_ok read).trans rest, ?_⟩
      have length : (bus.bytesAt descriptor.area).length = descriptor.length.toNat := here.length
      rw [same, Bytes.listOf_append, shows, bytesIn_cons, List.append_assoc, List.take_append, length]
      congr 2
      · rw [List.take_eq_take_iff, length]
        omega
      · congr 1
        omega

theorem KeptApart.head {descriptor : Descriptor} (kept : KeptApart bus (descriptor :: buffers)) :
    ∀ cell, bus.Covers descriptor.area cell → ¬ cellsOf bus buffers cell := by
  rintro cell covered ⟨other, member, coversToo⟩
  exact (List.pairwise_cons.mp kept).1 other member cell covered coversToo

theorem scatter_chunk {descriptor : Descriptor} (ram : bus.InRam descriptor.area) (bytes : ByteArray) {start skip n : Nat}
    (positive : 0 < n) (inside : skip + n ≤ descriptor.length.toNat) (more : start + n ≤ bytes.size) :
    ∃ address next, checkedAdd descriptor.address (UInt64.ofNat skip) = some address ∧
      Bus.writeBytes address (bytes.extract start (start + n)) bus = .ok () next ∧
      next.bytesAt descriptor.area = overlay (bus.bytesAt descriptor.area) skip (((listOf bytes).drop start).take n) ∧
      Bus.Confined (bus.Covers descriptor.area) bus next := by
  have size : (bytes.extract start (start + n)).size = n := by
    rw [ByteArray.size_extract]
    omega
  have short : descriptor.address.toNat + descriptor.length.toNat < UInt64.size :=
    ram.short (show 0 < descriptor.length.toNat by omega)
  have number : (UInt64.ofNat skip).toNat = skip := UInt64.toNat_ofNat_of_lt' (by omega)
  have place : checkedAdd descriptor.address (UInt64.ofNat skip) = some (descriptor.address + UInt64.ofNat skip) := by
    rw [checkedAdd, number, if_pos (by omega)]
  have here := checkedAdd_eq_some place
  rw [number] at here
  obtain ⟨next, written, laid, confined⟩ := ram.writes (by omega) here
    (show skip + (bytes.extract start (start + n)).size ≤ descriptor.length.toNat by omega)
  refine ⟨_, next, place, written, ?_, confined⟩
  rw [laid, Bytes.listOf_extract, Nat.add_sub_cancel_left]

theorem scatter_writes (ram : InRam bus buffers) (kept : KeptApart bus buffers) (bytes : ByteArray) (start skip : Nat) :
    ∃ next, scatter bytes start skip buffers bus = .ok (min (bytes.size - start) (Chain.totalLength buffers - skip)) next ∧
      bytesIn next buffers = overlay (bytesIn bus buffers) skip ((listOf bytes).drop start) ∧
      Bus.Confined (cellsOf bus buffers) bus next := by
  induction buffers generalizing start skip bus with
  | nil =>
    refine ⟨bus, ?_, ?_, .refl _ bus⟩
    · simp [scatter, Chain.totalLength]
    · simp [bytesIn, overlay]
  | cons descriptor buffers ih =>
    obtain ⟨ramHere, ramLater⟩ := List.forall_mem_cons.mp ram
    have apartLater : KeptApart bus buffers := (List.pairwise_cons.mp kept).2
    have length : (bus.bytesAt descriptor.area).length = descriptor.length.toNat := ramHere.length
    rw [scatter, totalLength_cons]
    by_cases done : bytes.size ≤ start
    · rw [if_pos done]
      refine ⟨bus, ?_, ?_, .refl _ bus⟩
      · rw [Nat.sub_eq_zero_of_le done, Nat.zero_min]
        rfl
      · rw [List.drop_eq_nil_of_le (by rw [Bytes.length_listOf]; exact done), Bytes.overlay_nil]
    rw [if_neg done]
    by_cases skips : descriptor.length.toNat ≤ skip
    · dsimp only
      rw [if_pos skips]
      obtain ⟨next, written, laid, confined⟩ := ih ramLater apartLater start (skip - descriptor.length.toNat)
      refine ⟨next, ?_, ?_, confined.mono fun _ => cellsOf_later⟩
      · rw [written]
        congr 2
        omega
      · rw [bytesIn_cons, bytesIn_cons, laid, Bytes.overlay_behind _ _ _ (by omega), length,
          confined.bytesAt ramHere kept.head]
    · dsimp only
      rw [if_neg skips]
      generalize chunk : min (descriptor.length.toNat - skip) (bytes.size - start) = n
      obtain ⟨address, mid, place, written, laid, confined⟩ :=
        scatter_chunk ramHere bytes (show 0 < n by omega) (show skip + n ≤ descriptor.length.toNat by omega)
          (show start + n ≤ bytes.size by omega)
      obtain ⟨next, rest, laidLater, further⟩ :=
        ih (InRam.confined ramLater confined) (apartLater.confined confined) (start + n) 0
      refine ⟨next, ?_, ?_, ?_⟩
      · rw [place]
        refine (bind_of_ok written).trans ((bind_of_ok rest).trans ?_)
        rw [pure_run]
        congr 2
        omega
      · have here := further.bytesAt (ramHere.confined confined) (kept.confined confined).head
        have there := bytesIn_confined ramLater confined fun cell other covers => kept.head cell covers other
        have first : ((listOf bytes).drop start).take n =
            ((listOf bytes).drop start).take (descriptor.length.toNat - skip) := by
          rw [List.take_eq_take_iff, List.length_drop, Bytes.length_listOf]
          omega
        have others : (listOf bytes).drop (start + n) =
            ((listOf bytes).drop start).drop (descriptor.length.toNat - skip) := by
          rw [← List.drop_drop, List.drop_eq_drop_iff, List.length_drop, Bytes.length_listOf]
          omega
        rw [bytesIn_cons, bytesIn_cons, here, laid, laidLater, there, first, others, Bytes.overlay_across _ _ _ (by omega),
          length]
      · exact (confined.mono fun _ => cellsOf_first).trans
          (further.mono fun _ covered => cellsOf_later (cellsOf_confined confined covered))

end Buffers

section OneMemory

variable {start : UInt64} {memory : Ram} {buffers : List Descriptor}

theorem ofMemory_inRam (fits : start.toNat + memory.data.size < UInt64.size)
    (inside : ∀ descriptor ∈ buffers, start ≤ descriptor.address ∧
      descriptor.address.toNat + descriptor.length.toNat ≤ start.toNat + memory.data.size) :
    InRam (Bus.ofMemory start memory) buffers :=
  fun descriptor member => Bus.ofMemory_inRam fits (inside descriptor member).1 (inside descriptor member).2

theorem ofMemory_bytesIn (fits : start.toNat + memory.data.size < UInt64.size)
    (inside : ∀ descriptor ∈ buffers, start ≤ descriptor.address ∧
      descriptor.address.toNat + descriptor.length.toNat ≤ start.toNat + memory.data.size) :
    bytesIn (Bus.ofMemory start memory) buffers = buffers.flatMap fun descriptor =>
      ((listOf memory.data).drop (descriptor.address.toNat - start.toNat)).take descriptor.length.toNat := by
  have same : ∀ descriptor ∈ buffers, (Bus.ofMemory start memory).bytesAt descriptor.area =
      ((listOf memory.data).drop (descriptor.address.toNat - start.toNat)).take descriptor.length.toNat :=
    fun descriptor member => Bus.ofMemory_bytesAt fits (inside descriptor member).1 (inside descriptor member).2
  rw [bytesIn, List.flatMap_def, List.flatMap_def, List.map_congr_left same]

theorem ofMemory_keptApart (disjoint : buffers.Pairwise fun first second =>
      first.address.toNat + first.length.toNat ≤ second.address.toNat ∨
        second.address.toNat + second.length.toNat ≤ first.address.toNat) :
    KeptApart (Bus.ofMemory start memory) buffers :=
  disjoint.imp fun apart => Bus.ofMemory_apart apart

end OneMemory

section Chains

variable {bus : Bus} {chain : Chain}

theorem readPrefix_reads (ram : InRam bus chain.readable) (limit : Nat) :
    ∃ bytes, chain.readPrefix limit bus = .ok bytes bus ∧ listOf bytes = (bytesIn bus chain.readable).take limit := by
  obtain ⟨bytes, read, shows⟩ := gather_reads ram ByteArray.empty (min chain.readableLength limit)
  refine ⟨bytes, read, shows.trans ?_⟩
  have length : (bytesIn bus chain.readable).length = chain.readableLength := ram.length
  change [] ++ _ = _
  rw [List.nil_append, List.take_eq_take_iff, length]
  omega

theorem writeAt_writes (ram : InRam bus chain.writable) (kept : KeptApart bus chain.writable) (offset : Nat)
    (bytes : ByteArray) :
    ∃ next, chain.writeAt offset bytes bus = .ok (UInt32.ofNat (min bytes.size (chain.writableLength - offset))) next ∧
      bytesIn next chain.writable = overlay (bytesIn bus chain.writable) offset (listOf bytes) ∧
      Bus.Confined (cellsOf bus chain.writable) bus next := by
  obtain ⟨next, written, laid, confined⟩ := scatter_writes ram kept bytes 0 offset
  exact ⟨next, bind_of_ok written, laid, confined⟩

end Chains

end Virtio

end RvBoard
