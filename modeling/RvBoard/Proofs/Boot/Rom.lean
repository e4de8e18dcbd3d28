import RvBoard.Proofs.Routing

/-!
# Contents of the boot ROM

Boot information that fits makes a ROM of a few instructions, the entry address, the device tree and zeros behind it. Where
the ROM is bound at the reset vector, reads find these bytes and leave everything as it was.
-/

set_option autoImplicit false

namespace RvBoard

open Bytes (listOf littleEndian ofLittleEndian)

namespace BootRom

-- The bytes of the instructions.
def code : List UInt8 :=
  trampoline.flatMap fun instr => littleEndian 4 (encode instr).toUInt64

def parcelAt (place : Nat) : UInt16 :=
  (ofLittleEndian ((code.drop place).take 2)).toUInt16

-- The ROM holds boot information and nothing else.
structure Holds (rom : BootRom) (entry : UInt64) (tree : ByteArray) : Prop where
  contents : listOf rom.data =
    code ++ (littleEndian 8 entry ++ (listOf tree ++ List.replicate (size - treeOffset - tree.size) 0))
  fits : treeOffset + tree.size ≤ size

section Contents

variable {rom : BootRom} {entry : UInt64} {tree : ByteArray}

theorem length_code : code.length = entryOffset := by
  decide +kernel

theorem size_image (entry : UInt64) (tree : ByteArray) :
    (Bytes.ofList (handoff entry) ++ tree).size = treeOffset + tree.size := by
  have length : (handoff entry).length = treeOffset := by
    change (code ++ _).length = _
    rw [List.length_append, length_code, Bytes.length_littleEndian]
    rfl
  rw [ByteArray.size_append, ← length]
  rfl

theorem bootInfo_fits (entry : UInt64) {tree : ByteArray} (fits : treeOffset + tree.size ≤ size) :
    ∃ rom, bootInfo? entry tree = some (treeOffset + tree.size, rom) ∧ rom.Holds entry tree := by
  have image := size_image entry tree
  unfold bootInfo?
  dsimp only
  rw [image, if_pos fits]
  refine ⟨_, rfl, ⟨?_, fits⟩⟩
  rw [Bytes.listOf_append, Bytes.listOf_append, Bytes.listOf_zeros, Nat.sub_add_eq, List.append_assoc]
  exact List.append_assoc _ _ _

theorem bootInfo_large (entry : UInt64) {tree : ByteArray} (large : size < treeOffset + tree.size) :
    bootInfo? entry tree = none := by
  have image := size_image entry tree
  unfold bootInfo?
  dsimp only
  rw [image, if_neg (Nat.not_le.mpr large)]

theorem Holds.size (holds : rom.Holds entry tree) : rom.data.size = BootRom.size := by
  have fits := holds.fits
  have length := congrArg List.length holds.contents
  have offsets : treeOffset = entryOffset + 8 := rfl
  rw [Bytes.length_listOf] at length
  simp only [List.length_append, length_code, Bytes.length_littleEndian, Bytes.length_listOf,
    List.length_replicate] at length
  omega

theorem Holds.word (holds : rom.Holds entry tree) {place n : Nat} (inside : place + n ≤ BootRom.size) :
    Bytes.wordAt rom.data place n = ofLittleEndian (((listOf rom.data).drop place).take n) :=
  Bytes.wordAt_listOf rom.data (holds.size ▸ inside)

theorem Holds.parcel (holds : rom.Holds entry tree) {place : Nat} (inside : place + 2 ≤ entryOffset) :
    (Bytes.wordAt rom.data place 2).toUInt16 = parcelAt place := by
  have length := length_code
  have small : entryOffset ≤ BootRom.size := by decide
  rw [holds.word (by omega), holds.contents, List.drop_append_of_le_length (by omega),
    List.take_append_of_le_length (by rw [List.length_drop]; omega), parcelAt]

theorem Holds.word_entry (holds : rom.Holds entry tree) : Bytes.wordAt rom.data entryOffset 8 = entry := by
  have front : (littleEndian 8 entry).length = 8 := Bytes.length_littleEndian 8 entry
  rw [holds.word (by decide), holds.contents, ← length_code, List.drop_left,
    List.take_append_of_le_length (Nat.le_of_eq front.symm), List.take_of_length_le (Nat.le_of_eq front)]
  exact Bytes.ofLittleEndian_littleEndian (Nat.le_refl 8) entry.toNat_lt

theorem Holds.drop_entry (holds : rom.Holds entry tree) :
    (listOf rom.data).drop treeOffset = listOf tree ++ List.replicate (BootRom.size - treeOffset - tree.size) 0 := by
  have front : (code ++ littleEndian 8 entry).length = treeOffset := by
    rw [List.length_append, length_code, Bytes.length_littleEndian]
    rfl
  rw [holds.contents, ← List.append_assoc, ← front, List.drop_left]

theorem Holds.extract_tree (holds : rom.Holds entry tree) : rom.data.extract treeOffset (treeOffset + tree.size) = tree := by
  apply Bytes.listOf_injective
  rw [Bytes.listOf_extract, Nat.add_sub_cancel_left, holds.drop_entry, ← Bytes.length_listOf tree, List.take_left]

theorem Holds.extract_blank (holds : rom.Holds entry tree) :
    rom.data.extract (treeOffset + tree.size) BootRom.size = Bytes.zeros (BootRom.size - (treeOffset + tree.size)) := by
  apply Bytes.listOf_injective
  rw [Bytes.listOf_extract, ← List.drop_drop, holds.drop_entry, ← Bytes.length_listOf tree, List.drop_left,
    Bytes.length_listOf, Bytes.listOf_zeros, Nat.sub_add_eq]
  exact List.take_of_length_le (by rw [List.length_replicate])

end Contents

end BootRom

namespace Bus

open BootRom (base size)

-- A boot ROM that is bound and free, on a bus where no address lies in two windows.
structure HasRom (bus : Bus) (id : DeviceId) (rom : BootRom) : Prop where
  mapped : bus.WellMapped
  bound : ⟨base, UInt64.ofNat size, id⟩ ∈ bus.windows
  present : bus.devices[id]? = some (.bootRom rom)
  free : bus.held ≠ some id

-- The ROM is given other contents.
def writeRom (id : DeviceId) (rom : BootRom) (bus : Bus) : Bus :=
  bus.mapDevice id fun _ wires => (.bootRom rom, wires)

section Reading

variable {bus : Bus} {id : DeviceId} {rom next : BootRom} {place n : Nat}

theorem HasRom.mapWires (has : bus.HasRom id rom) (change : Wires → Wires) : (bus.mapWires change).HasRom id rom := by
  obtain ⟨⟨sorted, disjoint, filled, known⟩, bound, present, free⟩ := has
  exact ⟨⟨sorted, disjoint, filled, known⟩, bound, present, free⟩

theorem HasRom.written (has : bus.HasRom id rom) (next : BootRom) : (bus.writeRom id next).HasRom id next := by
  have known := device_known has.present
  obtain ⟨sorted, disjoint, filled, within⟩ := has.mapped
  rw [writeRom, mapDevice_run _ has.present]
  refine ⟨⟨sorted, disjoint, filled, ?_⟩, has.bound, ?_, has.free⟩
  · intro window member
    change _ < (bus.devices.setIfInBounds _ _).size
    rw [Array.size_setIfInBounds]
    exact within window member
  · change (bus.devices.setIfInBounds _ _)[id]? = _
    rw [Array.getElem?_setIfInBounds, if_pos rfl, if_pos known]

theorem toNat_inRom (inside : place ≤ size) : (base + UInt64.ofNat place).toNat = base.toNat + place := by
  have top : base.toNat + size < UInt64.size := by decide
  have small : (UInt64.ofNat place).toNat = place := UInt64.toNat_ofNat_of_lt' (by omega)
  rw [UInt64.toNat_add, small]
  exact Nat.mod_eq_of_lt (show _ < UInt64.size by omega)

theorem HasRom.window (has : bus.HasRom id rom) (positive : 0 < n) (inside : place + n ≤ size) :
    bus.window? (base + UInt64.ofNat place) n = some ⟨base, UInt64.ofNat size, id⟩ := by
  have address := toNat_inRom (Nat.le_trans (Nat.le_add_right place n) inside)
  have stop : (saturatingAdd base (UInt64.ofNat size)).toNat = base.toNat + size := by decide
  refine (has.mapped.window_iff positive).mpr ⟨has.bound, contains_iff.mpr ⟨?_, ?_⟩⟩
  · rw [UInt64.le_iff_toNat_le, address]
    exact Nat.le_add_right _ _
  · rw [address, Window.stop, stop]
    omega

theorem offset_inRom (inside : place ≤ size) : (base + UInt64.ofNat place - base).toNat = place := by
  have top : size < UInt64.size := by decide
  rw [UInt64.add_comm, UInt64.add_sub_cancel, UInt64.toNat_ofNat_of_lt' (by omega)]

theorem HasRom.load (has : bus.HasRom id rom) (whole : rom.data.size = size) (width : Nat) (small : width ≤ 3)
    (fair : aligned width (base + UInt64.ofNat place) = true) (inside : place + byteCount width ≤ size) :
    Bus.load (base + UInt64.ofNat place) width bus = .ok (Bytes.wordAt rom.data place (byteCount width)) bus := by
  have found := has.window (byteCount_pos width) inside
  have here := offset_inRom (Nat.le_trans (Nat.le_add_right place _) inside)
  have holds : Bytes.holds rom.data place (byteCount width) = true := decide_eq_true (whole ▸ inside)
  rw [load_reached ⟨small, fair, found, has.free, has.present⟩]
  refine (settle_same _ has.present).trans ?_
  rw [BootRom.load, here, Bytes.word?, if_pos holds]
  rfl

theorem HasRom.readBytes (has : bus.HasRom id rom) (whole : rom.data.size = size) (inside : place + n ≤ size) :
    Bus.readBytes (base + UInt64.ofNat place) n bus = .ok (rom.data.extract place (place + n)) bus := by
  rcases Nat.eq_zero_or_pos n with rfl | positive
  · have nothing : rom.data.extract place (place + 0) = ByteArray.empty :=
      ByteArray.extract_eq_empty_iff.mpr (Nat.min_le_left _ _)
    rw [nothing]
    rfl
  · have here := offset_inRom (Nat.le_trans (Nat.le_add_right place n) inside)
    have holds : Bytes.holds rom.data place n = true := decide_eq_true (whole ▸ inside)
    rw [Bus.readBytes, if_neg (Nat.ne_of_gt positive), has.window positive inside]
    refine (withDevice_run .loadAccess _ has.free has.present).trans ((settle_same _ has.present).trans ?_)
    rw [BootRom.readBytes, here, Bytes.slice?, if_pos holds]
    rfl

end Reading

end Bus

end RvBoard
