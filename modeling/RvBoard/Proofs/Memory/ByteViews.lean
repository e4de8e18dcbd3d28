import RvBoard.Image.Load
import RvBoard.Proofs.Lookup
import RvBoard.Proofs.Virtio.Buffers

/-!
# Views of memory

Loads and stores of words, copies of bytes and images all see the same bytes. After any writes each byte is the one that
was put there last, whichever way it went in, and every way of reading brings it.
-/

set_option autoImplicit false

namespace RvBoard

open Bytes (listOf overlay littleEndian ofLittleEndian)

namespace Bytes

theorem getElem?_listOf (block : ByteArray) {i : Nat} (inside : i < block.size) :
    (listOf block)[i]? = some (block.get! i) := by
  have bound : i < block.data.size := inside
  change block.data.toList[i]? = some block.data[i]!
  rw [Array.getElem?_toList, Array.getElem?_eq_getElem bound, getElem!_pos block.data i bound]

theorem getElem?_overlay {old new : List UInt8} {place : Nat} (fits : place + new.length ≤ old.length) (i : Nat) :
    (overlay old place new)[i]? = if place ≤ i ∧ i < place + new.length then new[i - place]? else old[i]? := by
  have front : (old.take place).length = place := by
    rw [List.length_take]
    omega
  have whole : new.take (old.length - place) = new := List.take_of_length_le (by omega)
  rw [overlay, whole, List.append_assoc]
  by_cases before : i < place
  · rw [List.getElem?_append_left (by omega), List.getElem?_take_of_lt before, if_neg (by omega)]
  · rw [List.getElem?_append_right (by omega), front]
    by_cases inside : i < place + new.length
    · rw [List.getElem?_append_left (by omega), if_pos ⟨by omega, inside⟩]
    · have rest : place + new.length + (i - place - new.length) = i := by omega
      rw [List.getElem?_append_right (by omega), List.getElem?_drop, rest, if_neg (fun covered => inside covered.2)]

theorem getElem?_littleEndian (n : Nat) (value : UInt64) (k : Nat) :
    (littleEndian n value)[k]? = if k < n then some (byteAt value k) else none := by
  induction n generalizing value k with
  | zero => rfl
  | succ n ih =>
    cases k with
    | zero => rfl
    | succ k =>
      rw [littleEndian, List.getElem?_cons_succ, ih, byteAt]
      simp only [Nat.add_lt_add_iff_right]

theorem listOf_putWord (block : ByteArray) (offset n : Nat) (value : UInt64) (fits : offset + n ≤ block.size) :
    listOf (putWord block offset n value) = overlay (listOf block) offset (littleEndian n value) := by
  apply List.ext_getElem?
  intro i
  have length : (littleEndian n value).length = n := length_littleEndian n value
  rw [getElem?_overlay (by rw [length, length_listOf]; exact fits), length]
  by_cases inside : i < block.size
  · rw [getElem?_listOf _ (by rw [size_putWord]; exact inside), get_putWord block offset n i value fits]
    by_cases covered : offset ≤ i ∧ i < offset + n
    · rw [if_pos covered, if_pos covered, getElem?_littleEndian, if_pos (by omega)]
    · rw [if_neg covered, if_neg covered, getElem?_listOf block inside]
  · have here : (listOf (putWord block offset n value)).length ≤ i := by
      rw [length_listOf, size_putWord]
      omega
    rw [List.getElem?_eq_none here, if_neg (by omega), List.getElem?_eq_none (by rw [length_listOf]; omega)]

theorem overlay_cons {old rest : List UInt8} {place : Nat} (byte : UInt8)
    (fits : place + (rest.length + 1) ≤ old.length) :
    overlay (overlay old place [byte]) (place + 1) rest = overlay old place (byte :: rest) := by
  apply List.ext_getElem?
  intro i
  have one : place + [byte].length ≤ old.length := by
    rw [List.length_singleton]
    omega
  rw [getElem?_overlay (by rw [length_overlay]; omega), getElem?_overlay one, getElem?_overlay (by simpa using fits),
    List.length_singleton, List.length_cons]
  by_cases later : place + 1 ≤ i ∧ i < place + 1 + rest.length
  · have position : i - place = i - (place + 1) + 1 := by omega
    rw [if_pos later, if_pos (by omega), position, List.getElem?_cons_succ]
  · rw [if_neg later]
    by_cases here : i = place
    · subst here
      rw [if_pos (by omega), if_pos (by omega), Nat.sub_self, List.getElem?_cons_zero, List.getElem?_cons_zero]
    · rw [if_neg (by omega), if_neg (by omega)]

end Bytes

namespace Bus

-- The byte of a memory.
def byte? (bus : Bus) (cell : Cell) : Option UInt8 :=
  (bus.memory? cell.1).bind fun memory => (listOf memory.data)[cell.2]?

structure Put where
  cell : Cell
  bytes : List UInt8
deriving DecidableEq

def Put.byte? (put : Put) (cell : Cell) : Option UInt8 :=
  if put.cell.1 = cell.1 ∧ put.cell.2 ≤ cell.2 then put.bytes[cell.2 - put.cell.2]? else none

def lastByte? (start : Bus) (puts : List Put) (cell : Cell) : Option UInt8 :=
  (start.byte? cell).map fun first => (puts.findSome? (·.byte? cell)).getD first

def puts (bus : Bus) (address : UInt64) (bytes : List UInt8) : List Put :=
  match bus.window? address bytes.length with
  | some window => [⟨(window.device, offset window address), bytes⟩]
  | none => []

def putsOf (bus : Bus) : List (UInt64 × ByteArray) → List Put
  | [] => []
  | (address, bytes) :: rest => putsOf bus rest ++ bus.puts address (listOf bytes)

structure Laid (start : Bus) (puts : List Put) (bus : Bus) : Prop where
  windows : bus.windows = start.windows
  sizes : ∀ id, (bus.memory? id).map (·.data.size) = (start.memory? id).map (·.data.size)
  bytes : ∀ cell, bus.byte? cell = start.lastByte? puts cell

section Writing

variable {start middle bus next : Bus} {first second new : List Put} {address value : UInt64} {size : Nat}

theorem lastByte_nil (bus : Bus) (cell : Cell) : bus.lastByte? [] cell = bus.byte? cell :=
  Option.map_id'

theorem lastByte_unseen {put : Put} {cell : Cell} (unseen : put.byte? cell = none) :
    bus.lastByte? [put] cell = bus.byte? cell := by
  rw [lastByte?, List.findSome?_cons, unseen]
  exact lastByte_nil bus cell

theorem lastByte_seen {put : Put} {cell : Cell} {byte first : UInt8} (seen : put.byte? cell = some byte)
    (there : bus.byte? cell = some first) : bus.lastByte? [put] cell = some byte := by
  rw [lastByte?, List.findSome?_cons, seen, there]
  rfl

theorem Put.byte_outside {put : Put} {cell : Cell}
    (outside : ¬ (put.cell.1 = cell.1 ∧ put.cell.2 ≤ cell.2 ∧ cell.2 < put.cell.2 + put.bytes.length)) :
    put.byte? cell = none := by
  rw [Put.byte?]
  split
  · next reached =>
    exact List.getElem?_eq_none (Nat.le_of_not_lt fun less => outside ⟨reached.1, reached.2, by omega⟩)
  · rfl

theorem SameMemory.laid (same : SameMemory bus next) : Laid bus [] next := by
  refine ⟨same.windows, fun id => by rw [same.memory], fun cell => ?_⟩
  rw [lastByte_nil, byte?, same.memory]
  rfl

theorem Laid.refl (bus : Bus) : Laid bus [] bus :=
  (SameMemory.refl bus).laid

theorem Laid.trans (earlier : Laid start first middle) (later : Laid middle second next) :
    Laid start (second ++ first) next := by
  refine ⟨later.windows.trans earlier.windows, fun id => (later.sizes id).trans (earlier.sizes id), fun cell => ?_⟩
  rw [later.bytes, lastByte?, earlier.bytes, lastByte?, lastByte?, Option.map_map, List.findSome?_append]
  congr 1
  funext byte
  cases second.findSome? (·.byte? cell) <;> rfl

theorem puts_congr (same : bus.windows = start.windows) (address : UInt64) (bytes : List UInt8) :
    bus.puts address bytes = start.puts address bytes := by
  unfold puts window? find?
  rw [same]

theorem putsOf_congr (same : bus.windows = start.windows) (pieces : List (UInt64 × ByteArray)) :
    bus.putsOf pieces = start.putsOf pieces := by
  induction pieces with
  | nil => rfl
  | cons piece rest ih => rw [putsOf, putsOf, ih, puts_congr same]

theorem putsOf_append (bus : Bus) (front back : List (UInt64 × ByteArray)) :
    bus.putsOf (front ++ back) = bus.putsOf back ++ bus.putsOf front := by
  induction front with
  | nil => exact (List.append_nil _).symm
  | cons piece rest ih => rw [List.cons_append, putsOf, putsOf, ih, List.append_assoc]

theorem SameMemory.laid_foreign (same : SameMemory bus next) {id : DeviceId} (foreign : bus.memory? id = none)
    (place : Nat) (bytes : List UInt8) : Laid bus [⟨(id, place), bytes⟩] next := by
  obtain ⟨windows, sizes, kept⟩ := same.laid
  refine ⟨windows, sizes, fun cell => ?_⟩
  rw [kept, lastByte_nil]
  by_cases here : id = cell.1
  · rw [lastByte?, byte?, ← here, foreign]
    rfl
  · rw [lastByte_unseen (Put.byte_outside fun covered => here covered.1)]

theorem overlay_laid {id : DeviceId} {memory after : Ram} {place : Nat} {bytes : List UInt8} (wires : Wires)
    (present : bus.memory? id = some memory) (fits : place + bytes.length ≤ memory.data.size)
    (laid : listOf after.data = overlay (listOf memory.data) place bytes) :
    Laid bus [⟨(id, place), bytes⟩] (bus.replace id (.ram after) wires) := by
  have known := device_known (device_of_memory present)
  have size : after.data.size = memory.data.size := by
    rw [← Bytes.length_listOf, laid, Bytes.length_overlay, Bytes.length_listOf]
  refine ⟨rfl, fun other => ?_, fun ⟨other, i⟩ => ?_⟩
  · rw [memory_replace bus id other _ wires known]
    by_cases here : id = other
    · rw [if_pos here, ← here, present]
      exact congrArg some size
    · rw [if_neg here]
  · rw [byte?, memory_replace bus id other _ wires known]
    by_cases here : id = other
    · subst here
      rw [if_pos rfl]
      change (listOf after.data)[i]? = _
      have before : bus.byte? (id, i) = (listOf memory.data)[i]? := by
        rw [byte?, present]
        rfl
      rw [laid, Bytes.getElem?_overlay (by rw [Bytes.length_listOf]; exact fits)]
      by_cases covered : place ≤ i ∧ i < place + bytes.length
      · have inside : i < (listOf memory.data).length := by
          rw [Bytes.length_listOf]
          omega
        have within : i - place < bytes.length := by omega
        have seen : (⟨(id, place), bytes⟩ : Put).byte? (id, i) = some bytes[i - place] := by
          rw [Put.byte?, if_pos ⟨rfl, covered.1⟩, List.getElem?_eq_getElem within]
        rw [if_pos covered, lastByte_seen seen (before.trans (List.getElem?_eq_getElem inside)),
          List.getElem?_eq_getElem within]
      · rw [if_neg covered, lastByte_unseen (Put.byte_outside fun reached => covered reached.2), before]
    · rw [if_neg here, lastByte_unseen (Put.byte_outside fun reached => here reached.1)]
      rfl

theorem Laid.none (bus : Bus) (address : UInt64) : Laid bus (bus.puts address []) bus := by
  unfold puts
  split
  · refine ⟨rfl, fun _ => rfl, fun cell => (lastByte_unseen (Put.byte_outside ?_)).symm⟩
    rintro ⟨_, above, below⟩
    exact absurd below (Nat.not_lt.mpr above)
  · exact .refl bus

theorem Disturbed.laid {window : Window} {bytes : List UInt8} (disturbed : Disturbed bus window next)
    (found : bus.window? address bytes.length = some window) : Laid bus (bus.puts address bytes) next := by
  rw [puts, found]
  exact disturbed.same.laid_foreign disturbed.foreign _ bytes

theorem store_laid (done : store address size value bus = .ok () next) :
    Laid bus (bus.puts address (littleEndian (byteCount size) value)) next := by
  have length : (littleEndian (byteCount size) value).length = byteCount size := Bytes.length_littleEndian _ _
  rcases store_cases address size value bus with ⟨fault, failed⟩ | ⟨window, memory, inside⟩ | ⟨window, found, disturbed⟩
  · cases done.symm.trans failed
  · cases done.symm.trans (store_in_memory value inside)
    rw [puts, length, inside.reached.found]
    exact overlay_laid _ inside.memory (by rw [length]; exact inside.fits) (Bytes.listOf_putWord _ _ _ value inside.fits)
  · rw [done] at disturbed
    exact disturbed.laid (by rw [length]; exact found)

theorem withDevice_same {α : Type} {id : DeviceId} (fault : MemFault) (access : Device → Wires → Access α)
    (kept : ∀ device, bus.devices[id]? = some device → (access device bus.wires).2.1.memory? = device.memory?) :
    SameMemory bus (left (withDevice id fault access bus)) := by
  rcases withDevice_cases bus id fault access with failed | ⟨free, device, present⟩
  · rw [failed]
    exact .refl bus
  · rw [withDevice_run fault access free present, left_settle]
    refine ⟨rfl, fun other => ?_⟩
    rw [memory_replace bus id other _ _ (device_known present)]
    by_cases here : id = other
    · rw [if_pos here, kept device present, ← here, memory_of_device present]
    · rw [if_neg here]

theorem readBytes_same (address : UInt64) (n : Nat) (bus : Bus) : SameMemory bus (left (readBytes address n bus)) := by
  unfold readBytes
  by_cases nothing : n = 0
  · rw [if_pos nothing]
    exact .refl bus
  · rw [if_neg nothing]
    cases bus.window? address n with
    | none => exact .refl bus
    | some window =>
      refine withDevice_same _ _ fun device _ => ?_
      cases device with
      | ram memory => rfl
      | bootRom rom => rfl
      | _ => exact Device.foreign_closed.readEach n _ bus.wires _ _ rfl

theorem writeBytes_cases (address : UInt64) (bytes : ByteArray) (bus : Bus) :
    bytes.size = 0 ∧ writeBytes address bytes bus = .ok () bus ∨
    (∃ fault, writeBytes address bytes bus = .error fault bus) ∨
    (∃ window memory, 0 < bytes.size ∧ Backed bus address bytes.size window memory) ∨
    ∃ window, bus.window? address bytes.size = some window ∧ bus.memory? window.device = none ∧
      SameMemory bus (left (writeBytes address bytes bus)) := by
  rcases Nat.eq_zero_or_pos bytes.size with empty | positive
  · have nothing : bytes.isEmpty = true := beq_iff_eq.mpr empty
    exact .inl ⟨empty, by rw [writeBytes, if_pos nothing]⟩
  have full : ¬ bytes.isEmpty = true := fun nothing => Nat.ne_of_gt positive (beq_iff_eq.mp nothing)
  right
  cases found : bus.window? address bytes.size with
  | none => exact .inl ⟨.storeAccess, by rw [writeBytes, if_neg full, found]⟩
  | some window =>
    have run : writeBytes address bytes bus = withDevice window.device .storeAccess
        (fun device wires => device.writeBytes wires (address - window.start) bytes) bus := by
      rw [writeBytes, if_neg full, found]
    rcases withDevice_cases bus window.device .storeAccess
      (fun device wires => device.writeBytes wires (address - window.start) bytes) with failed | ⟨free, device, present⟩
    · exact .inl ⟨.storeAccess, run.trans failed⟩
    cases kind : device.memory? with
    | none =>
      refine .inr (.inr ⟨window, rfl, (memory_of_device present).trans kind, ?_⟩)
      rw [run]
      refine withDevice_same _ _ fun other there => ?_
      cases Option.some.inj (present.symm.trans there)
      cases device with
      | ram memory => cases kind
      | _ => exact (Device.foreign_closed.writeEach bytes.toList _ bus.wires _ rfl).trans kind.symm
    | some memory =>
      cases Device.memory_eq kind
      by_cases fits : offset window address + bytes.size ≤ memory.data.size
      · exact .inr (.inl ⟨window, memory, positive, found, free, memory_of_device present, fits⟩)
      · left
        refine ⟨.storeAccess, ?_⟩
        have short : Bytes.holds memory.data (address - window.start).toNat bytes.size = false := decide_eq_false fits
        rw [run, withDevice_run _ _ free present]
        simp only [Device.writeBytes, Ram.writeBytes, short, Bool.false_eq_true, if_false, settle]
        rw [replace_self present]

theorem writeBytes_laid {bytes : ByteArray} (done : writeBytes address bytes bus = .ok () next) :
    Laid bus (bus.puts address (listOf bytes)) next := by
  have length : (listOf bytes).length = bytes.size := Bytes.length_listOf bytes
  rcases writeBytes_cases address bytes bus with
    ⟨empty, nothing⟩ | ⟨fault, failed⟩ | ⟨window, memory, positive, backed⟩ | ⟨window, found, foreign, same⟩
  · cases done.symm.trans nothing
    rw [List.length_eq_zero_iff.mp (length.trans empty)]
    exact .none bus address
  · cases done.symm.trans failed
  · cases done.symm.trans (writeBytes_backed backed positive)
    rw [puts, length, backed.found]
    exact overlay_laid _ backed.present (by rw [length]; exact backed.fits) (Bytes.listOf_splice _ _ _ backed.fits)
  · rw [done] at same
    rw [puts, length, found]
    exact same.laid_foreign foreign _ _

theorem writeBytes_failed_same {bytes : ByteArray} {fault : MemFault}
    (failed : writeBytes address bytes bus = .error fault next) : SameMemory bus next := by
  rcases writeBytes_cases address bytes bus with
    ⟨_, nothing⟩ | ⟨other, same⟩ | ⟨window, memory, positive, backed⟩ | ⟨window, _, _, same⟩
  · cases failed.symm.trans nothing
  · cases failed.symm.trans same
    exact .refl bus
  · cases failed.symm.trans (writeBytes_backed backed positive)
  · rw [failed] at same
    exact same

end Writing

end Bus

namespace Image

open Bus (Laid)

def piecesOf (image : ByteArray) (segment : Segment) : List (UInt64 × ByteArray) :=
  match segment.type, segment.contents? image with
  | .ok .load, some contents =>
    [(segment.paddr, contents), (segment.paddr + segment.fileSize, Bytes.zeros segment.zeros.toNat)]
  | _, _ => []

def pieces (reader : ElfReader) (address : UInt64) (image : ByteArray) : List (UInt64 × ByteArray) :=
  if Elf.hasMagic image then
    match reader image with
    | .ok file => file.segments.flatMap (piecesOf image)
    | .error _ => []
  else [(address, image)]

section Loading

variable {bus next : Bus} {address entry : UInt64} {image : ByteArray} {reader : ElfReader}

theorem place_laid {bytes : ByteArray} (done : place address bytes bus = .ok () next) :
    Laid bus (bus.puts address (listOf bytes)) next := by
  unfold place at done
  split at done
  · next written =>
    cases done
    exact Bus.writeBytes_laid written
  · cases done

theorem placeZeros_laid {n : Nat} (done : placeZeros address n bus = .ok () next) :
    Laid bus (bus.puts address (listOf (Bytes.zeros n))) next := by
  unfold placeZeros at done
  by_cases nothing : n = 0
  · rw [if_pos nothing] at done
    cases done
    have empty : listOf (Bytes.zeros n) = [] := by
      rw [nothing]
      rfl
    rw [empty]
    exact .none bus address
  · rw [if_neg nothing] at done
    exact place_laid done

theorem loadSegment_laid {segment : Segment} (done : loadSegment image segment bus = .ok () next) :
    Laid bus (bus.putsOf (piecesOf image segment)) next := by
  unfold loadSegment at done
  unfold piecesOf
  cases kind : segment.type with
  | error message =>
    rw [kind] at done
    cases done
  | ok type =>
    rw [kind] at done
    cases type with
    | other =>
      cases done
      exact .refl bus
    | load =>
      cases held : segment.contents? image with
      | none =>
        rw [held] at done
        cases done
      | some contents =>
        rw [held] at done
        obtain ⟨_, middle, first, second⟩ := bind_ok.mp done
        have laid := place_laid first
        have more := placeZeros_laid second
        rw [Bus.puts_congr laid.windows] at more
        exact laid.trans more

theorem loadSegments_laid {segments : List Segment} (done : loadSegments image segments bus = .ok () next) :
    Laid bus (bus.putsOf (segments.flatMap (piecesOf image))) next := by
  induction segments generalizing bus with
  | nil =>
    cases done
    exact .refl _
  | cons segment rest ih =>
    obtain ⟨_, middle, first, second⟩ := bind_ok.mp done
    have laid := loadSegment_laid first
    have more := ih second
    rw [Bus.putsOf_congr laid.windows] at more
    rw [List.flatMap_cons, Bus.putsOf_append]
    exact laid.trans more

theorem loadAny_laid (done : loadAny reader address image bus = .ok entry next) :
    Laid bus (bus.putsOf (pieces reader address image)) next := by
  unfold loadAny at done
  unfold pieces
  by_cases elf : Elf.hasMagic image = true
  · rw [if_pos elf] at done ⊢
    unfold loadElf at done
    cases read : reader image with
    | error message =>
      rw [read] at done
      cases done
    | ok file =>
      rw [read] at done
      obtain ⟨_, middle, loaded, last⟩ := bind_ok.mp (unless_ok.mp done).2
      cases last
      exact loadSegments_laid loaded
  · rw [if_neg elf] at done ⊢
    obtain ⟨_, middle, loaded, last⟩ := bind_ok.mp done
    cases last
    exact place_laid loaded

end Loading

end Image

namespace Bus

-- A write that succeeds, on the bus or at a memory itself, with what it puts; or a move that leaves memory alone.
inductive Change (bus : Bus) : List Put → Bus → Prop
  | store {address value : UInt64} {size : Nat} {next : Bus} (done : store address size value bus = .ok () next) :
      Change bus (bus.puts address (littleEndian (byteCount size) value)) next
  | write {address : UInt64} {bytes : ByteArray} {next : Bus} (done : writeBytes address bytes bus = .ok () next) :
      Change bus (bus.puts address (listOf bytes)) next
  | image {reader : ElfReader} {address entry : UInt64} {image : ByteArray} {next : Bus}
      (done : Image.loadAny reader address image bus = .ok entry next) :
      Change bus (bus.putsOf (Image.pieces reader address image)) next
  | storeAt {id : DeviceId} {memory after : Ram} {offset value : UInt64} {size : Nat}
      (present : bus.memory? id = some memory) (small : size ≤ 3) (done : memory.store offset size value = (.ok (), after)) :
      Change bus [⟨(id, offset.toNat), littleEndian (byteCount size) value⟩] (bus.replace id (.ram after) bus.wires)
  | writeAt {id : DeviceId} {memory after : Ram} {offset : UInt64} {bytes : ByteArray}
      (present : bus.memory? id = some memory) (done : memory.writeBytes offset bytes = (.ok (), after)) :
      Change bus [⟨(id, offset.toNat), listOf bytes⟩] (bus.replace id (.ram after) bus.wires)
  | still {next : Bus} (same : SameMemory bus next) : Change bus [] next

-- The changes so far, and what they put, the last first.
inductive History (start : Bus) : List Put → Bus → Prop
  | begin : History start [] start
  | next {puts new : List Put} {bus next : Bus} (before : History start puts bus) (change : Change bus new next) :
      History start (new ++ puts) next

section Reading

variable {start bus next : Bus} {puts new : List Put} {id : DeviceId} {memory : Ram} {window : Window} {address : UInt64}

theorem Change.laid (change : Change bus new next) : Laid bus new next := by
  cases change with
  | store done => exact store_laid done
  | write done => exact writeBytes_laid done
  | image done => exact Image.loadAny_laid done
  | @storeAt id memory after offset value size present _ done =>
    have length : (littleEndian (byteCount size) value).length = byteCount size := Bytes.length_littleEndian _ _
    unfold Ram.store at done
    dsimp only at done
    split at done
    · next holds =>
      have fits : offset.toNat + byteCount size ≤ memory.data.size := of_decide_eq_true holds
      cases done
      exact overlay_laid _ present (by rw [length]; exact fits) (Bytes.listOf_putWord _ _ _ value fits)
    · cases done
  | @writeAt id memory after offset bytes present done =>
    have length : (listOf bytes).length = bytes.size := Bytes.length_listOf bytes
    unfold Ram.writeBytes at done
    dsimp only at done
    split at done
    · next holds =>
      have fits : offset.toNat + bytes.size ≤ memory.data.size := of_decide_eq_true holds
      cases done
      exact overlay_laid _ present (by rw [length]; exact fits) (Bytes.listOf_splice _ _ _ fits)
    · cases done
  | still same => exact same.laid

theorem History.laid (history : History start puts bus) : Laid start puts bus := by
  induction history with
  | begin => exact .refl start
  | next _ change ih => exact ih.trans change.laid

def LastPut (start : Bus) (puts : List Put) (cell : Cell) (bytes : List UInt8) : Prop :=
  ∀ k (inside : k < bytes.length), start.lastByte? puts (cell.1, cell.2 + k) = some bytes[k]

theorem Laid.lastPut (laid : Laid start puts bus) (present : bus.memory? id = some memory) {place n : Nat}
    (fits : place + n ≤ memory.data.size) :
    LastPut start puts (id, place) (listOf (memory.data.extract place (place + n))) := by
  intro k inside
  have within : k < n := by
    rw [Bytes.length_listOf, ByteArray.size_extract] at inside
    omega
  have there : place + k < (listOf memory.data).length := by
    rw [Bytes.length_listOf]
    omega
  rw [← laid.bytes, byte?, present]
  change (listOf memory.data)[place + k]? = _
  simp only [Bytes.listOf_extract, Nat.add_sub_cancel_left, List.getElem_take, List.getElem_drop]
  exact List.getElem?_eq_getElem there

theorem LastPut.unique {cell : Cell} {a b : List UInt8} (first : LastPut start puts cell a)
    (second : LastPut start puts cell b) (length : a.length = b.length) : a = b := by
  refine List.ext_getElem length fun k insideA insideB => ?_
  exact Option.some.inj ((first k insideA).symm.trans (second k insideB))

theorem Laid.fits (laid : Laid start puts bus) (bound : start.Bound) (member : window ∈ bus.windows)
    (present : bus.memory? window.device = some memory) : window.size.toNat ≤ memory.data.size := by
  have size := laid.sizes window.device
  rw [present, Option.map_some] at size
  obtain ⟨first, before, same⟩ := Option.map_eq_some_iff.mp size.symm
  rw [← same]
  exact bound.fits (laid.windows ▸ member) before

theorem Laid.lies (laid : Laid start puts bus) (bound : start.Bound) {n : Nat}
    (found : bus.window? address n = some window) (present : bus.memory? window.device = some memory)
    (free : bus.held ≠ some window.device) : bus.Lies ⟨address, n⟩ window memory := by
  have sorted : bus.Sorted := by
    unfold Sorted
    rw [laid.windows]
    exact bound.sorted
  have stepped : bus.Stepped := by
    unfold Stepped
    rw [laid.windows]
    exact bound.stepped
  refine ⟨fun positive above below => window_part sorted stepped found positive above below, free, present, ?_⟩
  obtain ⟨member, low, high⟩ := window_spec found
  have place := offset_address found
  have fits := laid.fits bound member present
  rw [Window.stop, toNat_saturatingAdd] at high
  dsimp only
  omega

end Reading

-- Some bytes are read, or written, one at a time.
def readSingly (address : UInt64) : Nat → BusM (List UInt8)
  | 0 => return []
  | n + 1 => do
    let byte ← load address 0
    let rest ← readSingly (address + 1) n
    return byte.toUInt8 :: rest

def writeSingly (address : UInt64) : List UInt8 → BusM Unit
  | [] => return
  | byte :: rest => do
    store address 0 byte.toUInt64
    writeSingly (address + 1) rest

section Singly

variable {bus : Bus} {address : UInt64} {window : Window} {memory : Ram}

theorem Lies.tail {n : Nat} (lies : bus.Lies ⟨address, n + 1⟩ window memory) :
    bus.Lies ⟨address + 1, n⟩ window memory ∧ offset window (address + 1) = offset window address + 1 := by
  have whole := lies.whole (Nat.succ_pos n)
  have high := (window_spec whole).2.2
  have top := window.stop.toNat_lt_size
  have place := offset_address whole
  have low := UInt64.le_iff_toNat_le.mp (window_spec whole).2.1
  have one : (1 : UInt64).toNat = 1 := rfl
  dsimp only at high place low
  have next : (address + 1).toNat = address.toNat + 1 := by
    rw [UInt64.toNat_add, one]
    exact Nat.mod_eq_of_lt (show _ < UInt64.size by omega)
  have behind : offset window (address + 1) = offset window address + 1 := by
    rw [offset, UInt64.toNat_sub_of_le _ _ (UInt64.le_iff_toNat_le.mpr (by omega)), next]
    omega
  have fits := lies.fits
  refine ⟨⟨fun positive above below => lies.found positive ?_ ?_, lies.free, lies.present, ?_⟩, behind⟩
  · rw [UInt64.le_iff_toNat_le] at above ⊢
    dsimp only at above ⊢
    omega
  · dsimp only at below ⊢
    omega
  · dsimp only at fits ⊢
    omega

theorem Lies.first {n : Nat} (lies : bus.Lies ⟨address, n + 1⟩ window memory) :
    InMemory bus address 0 window memory :=
  (lies.backed (Nat.add_zero _).symm (byteCount_pos 0) (Nat.add_le_add_right (Nat.zero_le n) 1)).inMemory (Nat.zero_le 3)
    (by simp [aligned, byteCount, Nat.mod_one])

theorem readSingly_lies {n : Nat} (lies : bus.Lies ⟨address, n⟩ window memory) :
    readSingly address n bus = .ok (((listOf memory.data).drop (offset window address)).take n) bus := by
  induction n generalizing address with
  | zero => rfl
  | succ n ih =>
    obtain ⟨later, behind⟩ := lies.tail
    have inside : offset window address < (listOf memory.data).length := by
      have fits := lies.fits
      rw [Bytes.length_listOf]
      dsimp only at fits
      omega
    have byte : (Bytes.wordAt memory.data (offset window address) (byteCount 0)).toUInt8 =
        (listOf memory.data)[offset window address] := by
      have first := Bytes.byteAt_wordAt memory.data (offset window address) 1 0 (by decide) (by decide)
      exact first.trans (Option.some.inj ((Bytes.getElem?_listOf _ (Bytes.length_listOf _ ▸ inside)).symm.trans
        (List.getElem?_eq_getElem inside)))
    rw [readSingly, bind_of_ok (load_in_memory lies.first), bind_of_ok (ih later), pure_run, behind, byte,
      List.drop_eq_getElem_cons inside, List.take_succ_cons]

theorem writeSingly_lies {bytes : List UInt8} (lies : bus.Lies ⟨address, bytes.length⟩ window memory) :
    ∃ after : Ram, writeSingly address bytes bus = .ok () (bus.replace window.device (.ram after) bus.wires) ∧
      listOf after.data = overlay (listOf memory.data) (offset window address) bytes := by
  induction bytes generalizing bus address memory with
  | nil =>
    refine ⟨memory, ?_, (Bytes.overlay_nil _ _).symm⟩
    rw [replace_self (device_of_memory lies.present)]
    rfl
  | cons byte rest ih =>
    have fits := lies.first.fits
    have put : listOf (Bytes.putWord memory.data (offset window address) (byteCount 0) byte.toUInt64) =
        overlay (listOf memory.data) (offset window address) [byte] :=
      (Bytes.listOf_putWord _ _ _ _ fits).trans (congrArg (fun first => overlay _ _ [first]) byte.toUInt8_toUInt64)
    obtain ⟨later, behind⟩ := lies.tail
    obtain ⟨after, written, laid⟩ := ih (later.replace bus.wires (Bytes.size_putWord memory.data _ _ byte.toUInt64))
    refine ⟨after, ?_, ?_⟩
    · rw [writeSingly, bind_of_ok (store_in_memory byte.toUInt64 lies.first), written, replace_replace]
      rfl
    · have room := lies.fits
      rw [List.length_cons] at room
      rw [laid, behind, put, Bytes.overlay_cons byte (by rw [Bytes.length_listOf]; exact room)]

theorem readBytes_lies {n : Nat} (lies : bus.Lies ⟨address, n⟩ window memory) :
    readBytes address n bus = .ok (memory.data.extract (offset window address) (offset window address + n)) bus := by
  rcases Nat.eq_zero_or_pos n with rfl | positive
  · have empty : memory.data.extract (offset window address) (offset window address + 0) = ByteArray.empty :=
      Bytes.listOf_injective (by rw [Bytes.listOf_extract, Nat.add_sub_cancel_left]; rfl)
    rw [empty]
    rfl
  · exact readBytes_backed ⟨lies.whole positive, lies.free, lies.present, lies.fits⟩ positive

theorem writeBytes_lies {bytes : ByteArray} (lies : bus.Lies ⟨address, bytes.size⟩ window memory) :
    ∃ next, writeBytes address bytes bus = .ok () next ∧ writeSingly address (listOf bytes) bus = .ok () next := by
  obtain ⟨after, written, bytewise⟩ := writeSingly_lies (Bytes.length_listOf bytes ▸ lies)
  refine ⟨_, ?_, written⟩
  rcases Nat.eq_zero_or_pos bytes.size with empty | positive
  · have none : listOf bytes = [] := List.length_eq_zero_iff.mp ((Bytes.length_listOf bytes).trans empty)
    have nothing : bytes.isEmpty = true := beq_iff_eq.mpr empty
    rw [none] at written
    rw [writeBytes, if_pos nothing]
    exact written
  · have same : Bytes.splice memory.data (offset window address) bytes = after.data :=
      Bytes.listOf_injective ((Bytes.listOf_splice _ _ _ lies.fits).trans bytewise.symm)
    rw [writeBytes_backed ⟨lies.whole positive, lies.free, lies.present, lies.fits⟩ positive, same]

end Singly

structure Agree (start : Bus) (puts : List Put) (bus : Bus) : Prop where
  memories : ∀ id memory (offset : UInt64) n, bus.memory? id = some memory → offset.toNat + n ≤ memory.data.size →
    ∃ block, memory.readBytes offset n = .ok block ∧ block.size = n ∧
      LastPut start puts (id, offset.toNat) (listOf block) ∧
      ∀ size ≤ 3, byteCount size = n → memory.load offset size = .ok (ofLittleEndian (listOf block))
  reads : ∀ address n window memory, bus.window? address n = some window → bus.memory? window.device = some memory →
    bus.held ≠ some window.device → ∃ block, readBytes address n bus = .ok block bus ∧ block.size = n ∧
      LastPut start puts (window.device, offset window address) (listOf block) ∧
      readSingly address n bus = .ok (listOf block) bus ∧
      ∀ size ≤ 3, byteCount size = n → aligned size address = true →
        load address size bus = .ok (ofLittleEndian (listOf block)) bus
  writes : ∀ address (bytes : ByteArray) window memory, bus.window? address bytes.size = some window →
    bus.memory? window.device = some memory → bus.held ≠ some window.device →
    ∃ next, writeBytes address bytes bus = .ok () next ∧ writeSingly address (listOf bytes) bus = .ok () next
  unread : ∀ address size n fault next,
    load address size bus = .error fault next ∨ readBytes address n bus = .error fault next → SameMemory bus next
  unwritten : ∀ address size value bytes fault next,
    store address size value bus = .error fault next ∨ writeBytes address bytes bus = .error fault next →
    SameMemory bus next
  refused : ∀ (memory after : Ram) offset size value bytes fault,
    memory.store offset size value = (.error fault, after) ∨ memory.writeBytes offset bytes = (.error fault, after) →
    after = memory

section Agreement

variable {start bus : Bus} {puts : List Put}

theorem Laid.memories (laid : Laid start puts bus) {id : DeviceId} {memory : Ram} {offset : UInt64} {n : Nat}
    (present : bus.memory? id = some memory) (fits : offset.toNat + n ≤ memory.data.size) :
    ∃ block, memory.readBytes offset n = .ok block ∧ block.size = n ∧
      LastPut start puts (id, offset.toNat) (listOf block) ∧
      ∀ size ≤ 3, byteCount size = n → memory.load offset size = .ok (ofLittleEndian (listOf block)) := by
  have holds : Bytes.holds memory.data offset.toNat n = true := decide_eq_true fits
  refine ⟨memory.data.extract offset.toNat (offset.toNat + n), ?_, ?_, laid.lastPut present fits, ?_⟩
  · rw [Ram.readBytes, Bytes.slice?, if_pos holds]
  · rw [ByteArray.size_extract]
    omega
  · rintro size - rfl
    rw [Ram.load, Bytes.word?, if_pos holds, Bytes.wordAt_listOf _ fits, Bytes.listOf_extract, Nat.add_sub_cancel_left]

theorem Laid.reads (laid : Laid start puts bus) (bound : start.Bound) {address : UInt64} {n : Nat} {window : Window}
    {memory : Ram} (found : bus.window? address n = some window) (present : bus.memory? window.device = some memory)
    (free : bus.held ≠ some window.device) :
    ∃ block, readBytes address n bus = .ok block bus ∧ block.size = n ∧
      LastPut start puts (window.device, offset window address) (listOf block) ∧
      readSingly address n bus = .ok (listOf block) bus ∧
      ∀ size ≤ 3, byteCount size = n → aligned size address = true →
        load address size bus = .ok (ofLittleEndian (listOf block)) bus := by
  have lies := laid.lies bound found present free
  have fits : offset window address + n ≤ memory.data.size := lies.fits
  have backed : Backed bus address n window memory := ⟨found, free, present, fits⟩
  have bytes : listOf (memory.data.extract (offset window address) (offset window address + n)) =
      ((listOf memory.data).drop (offset window address)).take n := by
    rw [Bytes.listOf_extract, Nat.add_sub_cancel_left]
  refine ⟨memory.data.extract (offset window address) (offset window address + n), ?_, ?_, laid.lastPut present fits, ?_, ?_⟩
  · exact readBytes_lies lies
  · rw [ByteArray.size_extract]
    omega
  · rw [bytes]
    exact readSingly_lies lies
  · rintro size small rfl fair
    rw [load_in_memory (backed.inMemory small fair), Bytes.wordAt_listOf _ fits, bytes]

theorem Laid.writes (laid : Laid start puts bus) (bound : start.Bound) {address : UInt64} {bytes : ByteArray}
    {window : Window} {memory : Ram} (found : bus.window? address bytes.size = some window)
    (present : bus.memory? window.device = some memory) (free : bus.held ≠ some window.device) :
    ∃ next, writeBytes address bytes bus = .ok () next ∧ writeSingly address (listOf bytes) bus = .ok () next :=
  writeBytes_lies (laid.lies bound found present free)

/-- On a bus whose windows bindings have made, after any writes of words, copies of bytes and images that succeed, with
other moves between them that leave memory alone, every word and every run of bytes that is read from a memory, on the bus
or at the memory itself, is made of the bytes that were put last, the lowest first. Bytes of one memory that are copied at
once are moved as they are one at a time, and what fails leaves all memory as it was. -/
theorem views_agree (bound : start.Bound) (history : History start puts bus) : Agree start puts bus where
  memories _ _ _ _ present fits := history.laid.memories present fits
  reads _ _ _ _ found present free := history.laid.reads bound found present free
  writes _ _ _ _ found present free := history.laid.writes bound found present free
  unread address size n fault next failed := by
    rcases failed with failed | failed
    · have same := load_same address size bus
      rw [failed] at same
      exact same
    · have same := readBytes_same address n bus
      rw [failed] at same
      exact same
  unwritten _ _ _ _ _ _ failed := failed.elim store_failed_same writeBytes_failed_same
  refused memory after offset size value bytes fault failed := by
    rcases failed with failed | failed
    · unfold Ram.store at failed
      dsimp only at failed
      split at failed
      · cases failed
      · cases failed
        rfl
    · unfold Ram.writeBytes at failed
      dsimp only at failed
      split at failed
      · cases failed
      · cases failed
        rfl

end Agreement

def sixteen : Bus :=
  ofMemory 0x1000 ⟨⟨#[0, 0, 0, 0, 0, 0, 0, 0, 0, 0, 0, 0, 0, 0, 0, 0]⟩⟩

theorem sixteen_bound : sixteen.Bound :=
  ⟨[(0x1000, 0)], by decide +kernel⟩

theorem sixteen_ram : sixteen.InRam ⟨0x1000, 16⟩ :=
  ofMemory_inRam (by decide) (by decide) (by decide)

theorem sixteen_history : ∃ bus, bus.InRam ⟨0x1000, 16⟩ ∧ bus.windows = sixteen.windows ∧
    History sixteen
      [⟨(0, 4), [0x55]⟩, ⟨(0, 2), [0xaa, 0xbb, 0xcc]⟩, ⟨(0, 0), [1, 2, 3, 4, 5, 6, 7, 8]⟩] bus := by
  have inside : InMemory sixteen 0x1000 3 _ _ :=
    ofMemory_inMemory (by decide) (by decide) (by decide) (by decide) (by decide)
  have stored := store_in_memory 0x0807060504030201 inside
  have first := stored_confined stored fun _ covered => covered
  obtain ⟨middle, copied, _, second⟩ :=
    @InRam.writes _ _ (sixteen_ram.confined first) 0x1002 2 ⟨#[0xaa, 0xbb, 0xcc]⟩ (by decide) rfl (by decide)
  obtain ⟨last, placed, _, third⟩ :=
    @InRam.writes _ _ ((sixteen_ram.confined first).confined second) 0x1004 4 ⟨#[0x55]⟩ (by decide) rfl (by decide)
  have flat : Elf.hasMagic ⟨#[0x55]⟩ = false := by decide +kernel
  have loaded : Image.loadAny Elf.read 0x1004 ⟨#[0x55]⟩ middle = .ok 0x1004 last := by
    rw [Image.loadAny, flat, if_neg Bool.false_ne_true]
    exact bind_of_ok (by rw [Image.place, placed])
  have windows := (second.windows).trans first.windows
  have history := History.next (.next (.next .begin (.store stored)) (.write copied)) (.image loaded)
  rw [putsOf_congr windows, puts_congr first.windows] at history
  have puts : sixteen.putsOf (Image.pieces Elf.read 0x1004 ⟨#[0x55]⟩) ++ (sixteen.puts 0x1002 (listOf ⟨#[0xaa, 0xbb, 0xcc]⟩) ++
      (sixteen.puts 0x1000 (littleEndian (byteCount 3) 0x0807060504030201) ++ [])) =
      [⟨(0, 4), [0x55]⟩, ⟨(0, 2), [0xaa, 0xbb, 0xcc]⟩, ⟨(0, 0), [1, 2, 3, 4, 5, 6, 7, 8]⟩] := by decide +kernel
  exact ⟨last, ((sixteen_ram.confined first).confined second).confined third, third.windows.trans windows, puts ▸ history⟩

theorem views_agree_overlapping : ∃ bus, load 0x1000 3 bus = .ok 0x08070655bbaa0201 bus ∧
    ∃ block, readBytes 0x1003 4 bus = .ok block bus ∧ listOf block = [0xbb, 0x55, 6, 7] := by
  obtain ⟨bus, ram, windows, history⟩ := sixteen_history
  obtain ⟨window, memory, lies⟩ := ram.resolve_left (by decide)
  have whole : bus.window? 0x1000 8 = some ⟨0x1000, 16, 0⟩ := by
    unfold window? find?
    rw [windows]
    exact ofMemory_window (by decide) (by decide) (by decide) (by decide)
  have found : bus.window? 0x1000 8 = some window := lies.found (by decide) (by decide) (by decide)
  have part : bus.window? 0x1003 4 = some window := lies.found (by decide) (by decide) (by decide)
  cases whole.symm.trans found
  have agree := views_agree sixteen_bound history
  obtain ⟨block, _, size, last, _, load⟩ := agree.reads _ _ _ memory found lies.present lies.free
  obtain ⟨run, read, length, bytes, _⟩ := agree.reads _ _ _ memory part lies.present lies.free
  have eight : listOf block = [1, 2, 0xaa, 0xbb, 0x55, 6, 7, 8] :=
    last.unique (by unfold LastPut; decide +kernel) ((Bytes.length_listOf block).trans size)
  have four : listOf run = [0xbb, 0x55, 6, 7] :=
    bytes.unique (by unfold LastPut; decide +kernel) ((Bytes.length_listOf run).trans length)
  refine ⟨bus, ?_, run, read, four⟩
  rw [load 3 (by decide) rfl (by decide), eight]
  rfl

end Bus

end RvBoard
