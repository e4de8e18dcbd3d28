import RvBoard.Proofs.Virtio.Buffers

/-!
# Scatter and gather

To a device the readable buffers of a chain are one run of bytes, and so are the writable ones. What it reads is the
front of the first run, and what it writes lies at its place in the second, wherever either is split.
-/

set_option autoImplicit false

namespace RvBoard

open Bytes (listOf overlay)

namespace Bytes

variable (old new : List UInt8) (place : Nat)

theorem overlay_parts :
    overlay old place new = old.take place ++ new.take (min new.length (old.length - place)) ++
      old.drop (place + min new.length (old.length - place)) := by
  have middle : new.take (old.length - place) = new.take (min new.length (old.length - place)) := by
    rw [List.take_eq_take_iff]
    omega
  have rest : old.drop (place + new.length) = old.drop (place + min new.length (old.length - place)) := by
    rw [List.drop_eq_drop_iff]
    omega
  rw [overlay, middle, rest]

theorem overlay_found (limit : Nat) (reached : place + min new.length (old.length - place) ≤ limit) :
    (((overlay old place new).take limit).drop place).take (min new.length (old.length - place)) =
      new.take (min new.length (old.length - place)) := by
  have parts := overlay_parts old new place
  generalize count : min new.length (old.length - place) = k at parts reached ⊢
  have enough : min k (limit - place) = k := by omega
  rw [List.drop_take, List.take_take, enough, parts]
  rcases Nat.eq_zero_or_pos k with none | some
  · rw [none, List.take_zero, List.take_zero]
  · have front : (old.take place).length = place := by
      rw [List.length_take]
      omega
    have middle : (new.take k).length = k := by
      rw [List.length_take]
      omega
    rw [List.append_assoc, List.drop_left' front, List.take_left' middle]

end Bytes

namespace Virtio

section Chains

variable {bus next : Bus} {buffers others : List Descriptor} {chain : Chain}

theorem InRam.readable (ram : InRam bus chain.descriptors) : InRam bus chain.readable :=
  fun descriptor member => ram descriptor (List.mem_filter.mp member).1

theorem InRam.writable (ram : InRam bus chain.descriptors) : InRam bus chain.writable :=
  fun descriptor member => ram descriptor (List.mem_filter.mp member).1

theorem bytesIn_areas (same : others.map Descriptor.area = buffers.map Descriptor.area) :
    bytesIn bus others = bytesIn bus buffers := by
  have parts (buffers : List Descriptor) : bytesIn bus buffers = (buffers.map Descriptor.area).flatMap bus.bytesAt := by
    rw [bytesIn, List.flatMap_map]
  rw [parts, parts, same]

theorem InRam.areas (ram : InRam bus buffers) (same : others.map Descriptor.area = buffers.map Descriptor.area) :
    InRam bus others := by
  intro descriptor member
  have mapped : descriptor.area ∈ buffers.map Descriptor.area := same ▸ List.mem_map_of_mem member
  obtain ⟨buffer, found, equal⟩ := List.mem_map.mp mapped
  exact equal ▸ ram buffer found

/-- A read of a chain whose buffers lie in memory brings the first bytes of its readable buffers, one after the other,
as many as the limit allows. A write at an offset puts as many bytes as there is room for in the place of those that its
writable buffers have there, changes nothing else in memory, and returns their number as a 32-bit word; then a read of
the same buffers finds these bytes at the same offset. -/
theorem scattered_and_gathered (ram : InRam bus chain.descriptors) (kept : KeptApart bus chain.writable)
    (limit offset : Nat) (data : ByteArray) :
    let front := min limit chain.readableLength
    let count := min data.size (chain.writableLength - offset)
    (∃ bytes, chain.readPrefix limit bus = .ok bytes bus ∧
      listOf bytes = (bytesIn bus chain.readable).take front ∧ bytes.size = front) ∧
    ∃ next, chain.writeAt offset data bus = .ok (UInt32.ofNat count) next ∧
      bytesIn next chain.writable = (bytesIn bus chain.writable).take offset ++ (listOf data).take count ++
        (bytesIn bus chain.writable).drop (offset + count) ∧
      Bus.Confined (cellsOf bus chain.writable) bus next ∧
      ∀ later : Chain, later.readable.map Descriptor.area = chain.writable.map Descriptor.area →
        ∀ limit, offset + count ≤ limit → ∃ bytes, later.readPrefix limit next = .ok bytes next ∧
          ((listOf bytes).drop offset).take count = (listOf data).take count := by
  have readable : (bytesIn bus chain.readable).length = chain.readableLength := ram.readable.length
  have writable : (bytesIn bus chain.writable).length = chain.writableLength := ram.writable.length
  have size : (listOf data).length = data.size := Bytes.length_listOf data
  intro front count
  refine ⟨?_, ?_⟩
  · obtain ⟨bytes, read, shows⟩ := readPrefix_reads ram.readable limit
    have exact : listOf bytes = (bytesIn bus chain.readable).take front := by
      rw [shows, List.take_eq_take_iff, readable]
      omega
    refine ⟨bytes, read, exact, ?_⟩
    rw [← Bytes.length_listOf, exact, List.length_take, readable]
    omega
  · obtain ⟨next, written, laid, confined⟩ := writeAt_writes ram.writable kept offset data
    refine ⟨next, written, ?_, confined, fun later same limit reached => ?_⟩
    · rw [laid, Bytes.overlay_parts, writable, size]
    · obtain ⟨bytes, read, shows⟩ := readPrefix_reads ((ram.writable.confined confined).areas same) limit
      have found := Bytes.overlay_found (bytesIn bus chain.writable) (listOf data) offset limit
      rw [writable, size] at found
      refine ⟨bytes, read, ?_⟩
      rw [shows, bytesIn_areas same, laid]
      exact found reached

end Chains

def striped : Bus :=
  Bus.ofMemory 0x1000 ⟨⟨#[1, 2, 3, 4, 5, 6, 7, 8, 9, 10, 11, 12]⟩⟩

def stripes : Chain :=
  ⟨0, [⟨0x1000, 2, 1, 1⟩, ⟨0x1002, 3, 3, 2⟩, ⟨0x1005, 0, 1, 3⟩, ⟨0x1008, 0, 3, 4⟩, ⟨0x1005, 3, 1, 5⟩, ⟨0x1008, 4, 2, 0⟩]⟩

def stripesBack : Chain :=
  ⟨1, [⟨0x1002, 3, 1, 1⟩, ⟨0x1008, 0, 1, 2⟩, ⟨0x1008, 4, 0, 0⟩]⟩

theorem scattered_and_gathered_across :
    (∃ bytes, stripes.readPrefix 4 striped = .ok bytes striped ∧ listOf bytes = [1, 2, 6, 7]) ∧
    ∃ next, stripes.writeAt 2 ⟨#[20, 21, 22]⟩ striped = .ok 3 next ∧
      bytesIn next stripes.writable = [3, 4, 20, 21, 22, 11, 12] ∧
      ∃ bytes, stripesBack.readPrefix 5 next = .ok bytes next ∧ ((listOf bytes).drop 2).take 3 = [20, 21, 22] := by
  have readable : bytesIn striped stripes.readable = [1, 2, 6, 7, 8] := by
    rw [striped, ofMemory_bytesIn (by decide) (by decide)]
    decide
  have writable : bytesIn striped stripes.writable = [3, 4, 5, 9, 10, 11, 12] := by
    rw [striped, ofMemory_bytesIn (by decide) (by decide)]
    decide
  obtain ⟨⟨bytes, read, shows, _⟩, next, written, laid, _, back⟩ :=
    @scattered_and_gathered striped stripes (ofMemory_inRam (by decide) (by decide)) (ofMemory_keptApart (by decide))
      4 2 ⟨#[20, 21, 22]⟩
  rw [readable] at shows
  rw [writable] at laid
  exact ⟨⟨bytes, read, shows⟩, next, written, laid, back stripesBack (by decide) 5 (by decide)⟩

end Virtio

end RvBoard
