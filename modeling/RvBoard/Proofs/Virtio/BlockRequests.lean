import RvBoard.Proofs.Virtio.Buffers
import RvBoard.Virtio.Process

/-!
# Block requests

What a request to the disk asks for is said by its readable bytes. The reply is laid over the writable bytes, with the
status as their last, and a successful write replaces the bytes of the store that it names.
-/

set_option autoImplicit false

namespace RvBoard.Virtio.Block

open Bytes (listOf overlay)

-- A store in memory, all of whose operations work.
structure InMemory (store : BlockStore) : Prop where
  backing : store.backing = .memory
  works : store.broken = none
  whole : store.length = store.data.size

def typeOf (request : List UInt8) : Option RequestType :=
  RequestType.ofNumber? (Bytes.ofLittleEndian (request.take 4)).toUInt32

def sectorOf (request : List UInt8) : UInt64 :=
  Bytes.ofLittleEndian ((request.drop 8).take 8)

def payloadOf (request : List UInt8) : List UInt8 :=
  request.drop headerSize

def Within (store : List UInt8) (sector : UInt64) (n : Nat) : Prop :=
  sector.toNat * sectorSize + n < UInt64.size ∧ sector.toNat * sectorSize + n ≤ store.length

instance (store : List UInt8) (sector : UInt64) (n : Nat) : Decidable (Within store sector n) :=
  inferInstanceAs (Decidable (_ ∧ _))

/-- The status of a request, the data for its writable bytes, and what the store then holds. -/
structure Reply where
  status : Status
  data : List UInt8
  store : List UInt8

def replyTo (store : List UInt8) (readOnly : Bool) (request : List UInt8) (room : Nat) : Reply :=
  let sector := sectorOf request
  let payload := payloadOf request
  match typeOf request with
  | some .input =>
    if Within store sector room then ⟨.ok, (store.drop (sector.toNat * sectorSize)).take room, store⟩
    else ⟨.ioError, [], store⟩
  | some .output =>
    if readOnly = false ∧ Within store sector payload.length then
      ⟨.ok, [], overlay store (sector.toNat * sectorSize) payload⟩
    else ⟨.ioError, [], store⟩
  | some .flush => ⟨.ok, [], store⟩
  | some .getId => ⟨.ok, (listOf idBytes).take room, store⟩
  | none => ⟨.unsupported, [], store⟩

def storing (block : Block) (bytes : List UInt8) : Block :=
  ⟨{ block.store with data := Bytes.ofList bytes }⟩

section Stores

variable {block : Block} {sector : UInt64} {n : Nat}

theorem storing_same (block : Block) : block.storing (listOf block.store.data) = block := rfl

theorem listOf_storing (block : Block) (bytes : List UInt8) : listOf (block.storing bytes).store.data = bytes := rfl

theorem InMemory.storing (memory : InMemory block.store) {bytes : List UInt8}
    (same : bytes.length = block.store.data.size) : InMemory (block.storing bytes).store :=
  ⟨memory.backing, memory.works, memory.whole.trans same.symm⟩

theorem inRange_eq (memory : InMemory block.store) :
    block.inRange sector n = decide (Within (listOf block.store.data) sector n) := by
  rw [inRange, memory.whole, ← Bytes.length_listOf, ← Bool.decide_and]
  rfl

theorem readSectors_replies (memory : InMemory block.store) (within : Within (listOf block.store.data) sector n) :
    ∃ bytes, block.readSectors sector n = some bytes ∧
      listOf bytes = ((listOf block.store.data).drop (sector.toNat * sectorSize)).take n := by
  have fits := within.2
  rw [Bytes.length_listOf] at fits
  refine ⟨block.store.data.extract (sector.toNat * sectorSize) (sector.toNat * sectorSize + n), ?_, ?_⟩
  · rw [readSectors, inRange_eq memory, if_pos (decide_eq_true within), BlockStore.read, memory.works, memory.backing]
    simp [Bytes.holds, fits]
  · rw [Bytes.listOf_extract, Nat.add_sub_cancel_left]

theorem put_storing (block : Block) {offset : Nat} {bytes : ByteArray}
    (fits : offset + bytes.size ≤ block.store.data.size) :
    (⟨block.store.put offset bytes⟩ : Block) = block.storing (overlay (listOf block.store.data) offset (listOf bytes)) := by
  unfold BlockStore.put
  cases empty : bytes.isEmpty with
  | true =>
    have none : listOf bytes = [] := by
      rw [← List.length_eq_zero_iff, Bytes.length_listOf]
      exact eq_of_beq empty
    rw [if_pos rfl, none, Bytes.overlay_nil, storing_same]
  | false =>
    have zeros : Bytes.zeros (offset + bytes.size - block.store.data.size) = ByteArray.empty := by
      rw [Nat.sub_eq_zero_of_le fits]
      rfl
    have whole : block.store.data ++ ByteArray.empty = block.store.data := ByteArray.append_empty
    rw [if_neg Bool.false_ne_true]
    dsimp only
    rw [zeros, whole, ← Bytes.listOf_splice _ _ _ fits]
    rfl

theorem writeSectors_replies (memory : InMemory block.store) {bytes : ByteArray} {payload : List UInt8}
    (brings : listOf bytes = payload) :
    writeSectors sector bytes block =
      if block.store.readOnly = false ∧ Within (listOf block.store.data) sector payload.length then
        (.ok, block.storing (overlay (listOf block.store.data) (sector.toNat * sectorSize) payload))
      else (.ioError, block) := by
  subst brings
  rw [Bytes.length_listOf]
  unfold writeSectors
  dsimp only
  cases locked : block.store.readOnly with
  | true => simp
  | false =>
    rw [if_neg Bool.false_ne_true]
    by_cases within : Within (listOf block.store.data) sector bytes.size
    · have fits := within.2
      rw [Bytes.length_listOf] at fits
      have inside : inRange ⟨block.store⟩ sector bytes.size = true := (inRange_eq memory).trans (decide_eq_true within)
      have written : block.store.write (sector.toNat * sectorSize) bytes =
          (.ok (), block.store.put (sector.toNat * sectorSize) bytes) := by
        rw [BlockStore.write, BlockStore.writeError?, memory.works, memory.backing]
        simp [Bytes.holds, fits]
      rw [inside, Bool.not_true, if_neg Bool.false_ne_true, written, if_pos ⟨rfl, within⟩, ← put_storing block fits]
    · have outside : inRange ⟨block.store⟩ sector bytes.size = false := (inRange_eq memory).trans (decide_eq_false within)
      rw [outside, Bool.not_false, if_pos rfl, if_neg fun both => within both.2]

end Stores

/-- A request whose buffers lie in memory, with a whole header and room for the status, and whose writable buffers do
not overlap. -/
structure Carried (chain : Chain) (bus : Bus) : Prop where
  readable : InRam bus chain.readable
  writable : InRam bus chain.writable
  kept : KeptApart bus chain.writable
  header : headerSize ≤ chain.readableLength
  room : 1 ≤ chain.writableLength

section Requests

variable {block : Block} {chain : Chain} {bus : Bus}

theorem onBus_of_ok {α : Type} {operation : BusM α} {next : Bus} {value : α}
    (done : operation bus = .ok value next) :
    DmaM.onBus operation ⟨block, bus⟩ = .ok value ⟨block, next⟩ := by
  simp only [DmaM.onBus, done]

theorem answer_lays (block : Block) (carried : Carried chain bus) (bytes : ByteArray)
    (fits : bytes.size < chain.writableLength) :
    ∃ next, answer chain bytes ⟨block, bus⟩ = .ok (.ok, UInt32.ofNat bytes.size) ⟨block, next⟩ ∧
      bytesIn next chain.writable = overlay (bytesIn bus chain.writable) 0 (listOf bytes) ∧
      Bus.Confined (cellsOf bus chain.writable) bus next := by
  obtain ⟨next, written, laid, confined⟩ := writeAt_writes carried.writable carried.kept 0 bytes
  rw [Nat.sub_zero, Nat.min_eq_left (Nat.le_of_lt fits)] at written
  exact ⟨next, bind_of_ok (onBus_of_ok written), laid, confined⟩

def Served (chain : Chain) (block : Block) (bus : Bus) (type : Option RequestType) (reply : Reply) : Prop :=
  ∃ next, perform chain (sectorOf (bytesIn bus chain.readable)) (chain.writableLength - 1) type ⟨block, bus⟩ =
      .ok (reply.status, UInt32.ofNat reply.data.length) ⟨block.storing reply.store, next⟩ ∧
    bytesIn next chain.writable = overlay (bytesIn bus chain.writable) 0 reply.data ∧
    Bus.Confined (cellsOf bus chain.writable) bus next

theorem served_dry {type : Option RequestType} {status : Status} {store : List UInt8}
    (done : perform chain (sectorOf (bytesIn bus chain.readable)) (chain.writableLength - 1) type ⟨block, bus⟩ =
      .ok (status, 0) ⟨block.storing store, bus⟩) : Served chain block bus type ⟨status, [], store⟩ :=
  ⟨bus, done, (Bytes.overlay_nil ..).symm, .refl _ bus⟩

theorem backend_run : backend ⟨block, bus⟩ = .ok block ⟨block, bus⟩ := rfl

theorem input_served (memory : InMemory block.store) (carried : Carried chain bus) :
    let sector := sectorOf (bytesIn bus chain.readable)
    let room := chain.writableLength - 1
    Served chain block bus (some .input)
      (if Within (listOf block.store.data) sector room then
        ⟨.ok, ((listOf block.store.data).drop (sector.toNat * sectorSize)).take room, listOf block.store.data⟩
      else ⟨.ioError, [], listOf block.store.data⟩) := by
  intro sector room
  have one := carried.room
  by_cases within : Within (listOf block.store.data) sector room
  · obtain ⟨bytes, read, shows⟩ := readSectors_replies memory within
    have size : bytes.size = room := by
      have fits := within.2
      rw [← Bytes.length_listOf, shows, List.length_take, List.length_drop]
      omega
    obtain ⟨next, answered, laid, confined⟩ := answer_lays block carried bytes (by omega)
    rw [if_pos within, ← shows]
    refine ⟨next, ?_, laid, confined⟩
    rw [Bytes.length_listOf]
    refine (bind_of_ok backend_run).trans ?_
    rw [read]
    exact answered
  · have refused : block.readSectors sector room = none := by
      rw [readSectors, inRange_eq memory, decide_eq_false within, if_neg Bool.false_ne_true]
    rw [if_neg within]
    refine served_dry ((bind_of_ok backend_run).trans ?_)
    rw [refused]
    rfl

theorem output_served (memory : InMemory block.store) (carried : Carried chain bus) :
    let sector := sectorOf (bytesIn bus chain.readable)
    let payload := payloadOf (bytesIn bus chain.readable)
    Served chain block bus (some .output)
      (if block.store.readOnly = false ∧ Within (listOf block.store.data) sector payload.length then
        ⟨.ok, [], overlay (listOf block.store.data) (sector.toNat * sectorSize) payload⟩
      else ⟨.ioError, [], listOf block.store.data⟩) := by
  intro sector payload
  have length : (bytesIn bus chain.readable).length = chain.readableLength := carried.readable.length
  have rest : payload.length = chain.readableLength - headerSize := by
    rw [← length]
    exact List.length_drop
  by_cases within : Within (listOf block.store.data) sector payload.length
  · obtain ⟨request, read, shows⟩ := readPrefix_reads carried.readable chain.readableLength
    rw [← length, List.take_length] at shows
    have data : listOf (request.extract headerSize request.size) = payload := by
      rw [Bytes.listOf_extract, shows, ← Bytes.length_listOf, shows, ← List.length_drop, List.take_length]
      rfl
    have written : writeSectors sector (request.extract headerSize request.size) block = _ :=
      writeSectors_replies memory data
    have inside : block.inRange sector (chain.readableLength - headerSize) = true := by
      rw [← rest, inRange_eq memory, decide_eq_true within]
    have performed : perform chain sector (chain.writableLength - 1) (some .output) ⟨block, bus⟩ =
        .ok ((writeSectors sector (request.extract headerSize request.size) block).1, 0)
          ⟨(writeSectors sector (request.extract headerSize request.size) block).2, bus⟩ := by
      refine (bind_of_ok backend_run).trans ?_
      rw [inside]
      exact bind_of_ok (onBus_of_ok read)
    rw [written] at performed
    by_cases served : block.store.readOnly = false ∧ Within (listOf block.store.data) sector payload.length
    · rw [if_pos served] at performed ⊢
      exact served_dry performed
    · rw [if_neg served] at performed ⊢
      exact served_dry performed
  · have outside : block.inRange sector (chain.readableLength - headerSize) = false := by
      rw [← rest, inRange_eq memory, decide_eq_false within]
    rw [if_neg fun both => within both.2]
    refine served_dry ((bind_of_ok backend_run).trans ?_)
    rw [outside]
    rfl

theorem flush_served (memory : InMemory block.store) :
    Served chain block bus (some .flush) ⟨.ok, [], listOf block.store.data⟩ := by
  have flushed : block.store.flush = .ok () := by
    rw [BlockStore.flush, memory.works]
    rfl
  refine served_dry ((bind_of_ok backend_run).trans ?_)
  rw [flushed]
  rfl

theorem getId_served (carried : Carried chain bus) :
    Served chain block bus (some .getId)
      ⟨.ok, (listOf idBytes).take (chain.writableLength - 1), listOf block.store.data⟩ := by
  have one := carried.room
  have size : idBytes.size = idSize := by decide +kernel
  have shows : listOf (idBytes.extract 0 (min (chain.writableLength - 1) idSize)) =
      (listOf idBytes).take (chain.writableLength - 1) := by
    rw [Bytes.listOf_extract, List.drop_zero, Nat.sub_zero, List.take_eq_take_iff, Bytes.length_listOf, size]
    omega
  obtain ⟨next, answered, laid, confined⟩ := answer_lays block carried
    (idBytes.extract 0 (min (chain.writableLength - 1) idSize)) (by rw [ByteArray.size_extract]; omega)
  rw [← shows]
  refine ⟨next, ?_, laid, confined⟩
  rw [Bytes.length_listOf]
  exact answered

theorem perform_serves (memory : InMemory block.store) (carried : Carried chain bus) :
    Served chain block bus (typeOf (bytesIn bus chain.readable))
      (replyTo (listOf block.store.data) block.store.readOnly (bytesIn bus chain.readable) (chain.writableLength - 1)) := by
  unfold replyTo
  cases typeOf (bytesIn bus chain.readable) with
  | none => exact served_dry rfl
  | some type =>
    cases type with
    | input => exact input_served memory carried
    | output => exact output_served memory carried
    | flush => exact flush_served memory
    | getId => exact getId_served carried

theorem replyTo_fits (store : List UInt8) (readOnly : Bool) (request : List UInt8) (room : Nat) :
    (replyTo store readOnly request room).data.length ≤ room := by
  unfold replyTo
  dsimp only
  split
  · split
    · exact List.length_take_le ..
    · exact Nat.zero_le _
  · split <;> exact Nat.zero_le _
  · exact Nat.zero_le _
  · exact List.length_take_le ..
  · exact Nat.zero_le _

theorem overlay_ends (old data : List UInt8) (last : UInt8) {room : Nat} (length : old.length = room + 1)
    (fits : data.length ≤ room) :
    overlay (overlay old 0 data) room [last] = data ++ (old.take room).drop data.length ++ [last] := by
  have front : overlay old 0 data = data ++ old.drop data.length := by
    rw [overlay, List.take_zero, List.nil_append, Nat.sub_zero, Nat.zero_add, List.take_of_length_le (by omega)]
  have whole : (overlay old 0 data).length = room + 1 := (Bytes.length_overlay ..).trans length
  have one : [last].take (room + 1 - room) = [last] := by
    rw [Nat.add_sub_cancel_left]
    rfl
  rw [overlay, whole, one, List.length_singleton, List.drop_eq_nil_of_le (Nat.le_of_eq whole), List.append_nil, front,
    List.take_append, List.take_of_length_le fits, List.drop_take]

/-- A request is answered by a reply when the data are at the front of its writable bytes and the status is their last,
the store is that of the reply, and nothing else in memory is changed. -/
def Answers (chain : Chain) (block : Block) (bus : Bus) (reply : Reply) : Prop :=
  ∃ next, process chain ⟨block, bus⟩ = .ok (UInt32.ofNat (reply.data.length + 1)) ⟨block.storing reply.store, next⟩ ∧
    bytesIn next chain.writable = reply.data ++
      ((bytesIn bus chain.writable).take (chain.writableLength - 1)).drop reply.data.length ++ [reply.status.byte] ∧
    Bus.Confined (cellsOf bus chain.writable) bus next

theorem header_shows (carried : Carried chain bus) {header : ByteArray} {mid : Bus}
    (read : chain.readPrefix headerSize bus = .ok header mid) :
    mid = bus ∧ RequestType.ofNumber? (Bytes.wordAt header 0 4).toUInt32 = typeOf (bytesIn bus chain.readable) ∧
      Bytes.wordAt header 8 8 = sectorOf (bytesIn bus chain.readable) := by
  have long := carried.header
  obtain ⟨bytes, found, shows⟩ := readPrefix_reads carried.readable headerSize
  obtain ⟨rfl, rfl⟩ := EStateM.Result.ok.inj (read.symm.trans found)
  have size : header.size = headerSize := by
    have length : (bytesIn mid chain.readable).length = chain.readableLength := carried.readable.length
    rw [← Bytes.length_listOf, shows, List.length_take]
    omega
  refine ⟨rfl, ?_, ?_⟩
  · rw [Bytes.wordAt_listOf header (by rw [size]; decide), shows]
    simp [typeOf, List.take_take, headerSize]
  · rw [Bytes.wordAt_listOf header (by rw [size]; decide), shows]
    simp [sectorOf, List.drop_take, List.take_take, headerSize]

theorem Served.answers (carried : Carried chain bus) {reply : Reply}
    (served : Served chain block bus (typeOf (bytesIn bus chain.readable)) reply)
    (fits : reply.data.length ≤ chain.writableLength - 1) : Answers chain block bus reply := by
  obtain ⟨mid, performed, laid, confined⟩ := served
  have room := carried.room
  have long := carried.header
  obtain ⟨header, read, _⟩ := readPrefix_reads carried.readable headerSize
  obtain ⟨_, type, sector⟩ := header_shows carried read
  obtain ⟨next, written, last, further⟩ := writeAt_writes (carried.writable.confined confined)
    (carried.kept.confined confined) (chain.writableLength - 1) ⟨#[reply.status.byte]⟩
  refine ⟨next, ?_, ?_, confined.trans (further.mono fun _ covered => cellsOf_confined confined covered)⟩
  · unfold process
    dsimp only
    rw [if_neg (Nat.ne_of_gt room), if_neg (Nat.not_lt.mpr long)]
    refine (bind_of_ok (onBus_of_ok read)).trans ?_
    rw [type, sector]
    refine (bind_of_ok performed).trans ((bind_of_ok (onBus_of_ok written)).trans ?_)
    rw [UInt32.ofNat_add]
    rfl
  · rw [last, laid]
    exact overlay_ends _ _ _ (by rw [carried.writable.length]; exact (Nat.sub_add_cancel room).symm) fits

theorem process_answers (memory : InMemory block.store) (carried : Carried chain bus) :
    Answers chain block bus
      (replyTo (listOf block.store.data) block.store.readOnly (bytesIn bus chain.readable) (chain.writableLength - 1)) :=
  (perform_serves memory carried).answers carried (replyTo_fits ..)

theorem replyTo_stored {store : List UInt8} {readOnly : Bool} {request : List UInt8} {room : Nat}
    (output : typeOf request = some .output) (ok : (replyTo store readOnly request room).status = .ok) :
    Within store (sectorOf request) (payloadOf request).length ∧
      (replyTo store readOnly request room).store =
        overlay store ((sectorOf request).toNat * sectorSize) (payloadOf request) := by
  unfold replyTo at ok ⊢
  rw [output] at ok ⊢
  dsimp only at ok ⊢
  by_cases done : readOnly = false ∧ Within store (sectorOf request) (payloadOf request).length
  · rw [if_pos done]
    exact ⟨done.2, rfl⟩
  · rw [if_neg done] at ok
    cases ok

theorem replyTo_written_back {store payload : List UInt8} {readOnly : Bool} {sector : UInt64} {request : List UInt8}
    (within : Within store sector payload.length) (input : typeOf request = some .input)
    (same : sectorOf request = sector) :
    replyTo (overlay store (sector.toNat * sectorSize) payload) readOnly request payload.length =
      ⟨.ok, payload, overlay store (sector.toNat * sectorSize) payload⟩ := by
  have still : Within (overlay store (sector.toNat * sectorSize) payload) sector payload.length :=
    ⟨within.1, (Bytes.length_overlay ..).symm ▸ within.2⟩
  unfold replyTo
  rw [input, same]
  dsimp only
  rw [if_pos still, Bytes.overlay_shows _ _ within.2]

/-- A request to a store in memory is answered as it asks, and after a write that succeeds, a read of the same bytes
brings what was written, whatever the buffers of both. -/
theorem process_exact (memory : InMemory block.store) (carried : Carried chain bus) :
    let request := bytesIn bus chain.readable
    let reply := replyTo (listOf block.store.data) block.store.readOnly request (chain.writableLength - 1)
    Answers chain block bus reply ∧
      (typeOf request = some .output → reply.status = .ok →
        ∀ count written, process chain ⟨block, bus⟩ = .ok count written →
        ∀ later bus, Carried later bus → typeOf (bytesIn bus later.readable) = some .input →
          sectorOf (bytesIn bus later.readable) = sectorOf request →
          later.writableLength = (payloadOf request).length + 1 →
          Answers later written.backend bus ⟨.ok, payloadOf request, listOf written.backend.store.data⟩) := by
  intro request reply
  refine ⟨process_answers memory carried, fun output ok count written done later bus again input same room => ?_⟩
  obtain ⟨next, answered, _⟩ := process_answers memory carried
  obtain ⟨within, stored⟩ := replyTo_stored output ok
  have backend : written.backend =
      block.storing (overlay (listOf block.store.data) ((sectorOf request).toNat * sectorSize) (payloadOf request)) := by
    rw [answered] at done
    cases done
    rw [← stored]
  have whole : InMemory written.backend.store := by
    rw [backend]
    exact memory.storing ((Bytes.length_overlay ..).trans (Bytes.length_listOf ..))
  have answers := process_answers whole again
  rw [room, Nat.add_sub_cancel, backend, listOf_storing, replyTo_written_back within input same] at answers
  rw [backend]
  exact answers

end Requests

def splitBytes : ByteArray :=
  ⟨#[1, 0, 0, 0, 0, 0, 0, 0, 0, 0, 0, 0, 0, 0, 0, 0, 7, 8, 9, 10, 0xff, 0, 0, 0,
    0, 0, 0, 0, 0, 0, 0, 0, 0, 0, 0, 0, 0, 0, 0, 0, 0, 0, 0, 0, 0, 0xff]⟩

def splitBus : Bus :=
  Bus.ofMemory 0x1000 ⟨splitBytes⟩

def splitWrite : Chain :=
  ⟨0, [⟨0x1000, 10, 1, 1⟩, ⟨0x100a, 10, 1, 2⟩, ⟨0x1014, 1, 2, 0⟩]⟩

def splitRead : Chain :=
  ⟨3, [⟨0x1018, 16, 1, 4⟩, ⟨0x1028, 3, 3, 5⟩, ⟨0x102c, 2, 2, 0⟩]⟩

def sixBytes : Block :=
  ⟨BlockStore.ofBytes .memory ⟨#[1, 2, 3, 4, 5, 6]⟩ false⟩

theorem splitWrite_carried : Carried splitWrite splitBus where
  readable := ofMemory_inRam (by decide) (by decide)
  writable := ofMemory_inRam (by decide) (by decide)
  kept := ofMemory_keptApart (by decide)
  header := by decide
  room := by decide

theorem splitRead_carried {next : Bus} (confined : Bus.Confined (cellsOf splitBus splitWrite.writable) splitBus next) :
    Carried splitRead next where
  readable := (ofMemory_inRam (by decide) (by decide) : InRam splitBus _).confined confined
  writable := (ofMemory_inRam (by decide) (by decide) : InRam splitBus _).confined confined
  kept := (ofMemory_keptApart (by decide) : KeptApart splitBus _).confined confined
  header := by decide
  room := by decide

theorem splitWrite_bytes :
    bytesIn splitBus splitWrite.readable = [1, 0, 0, 0, 0, 0, 0, 0, 0, 0, 0, 0, 0, 0, 0, 0, 7, 8, 9, 10] := by
  rw [splitBus, ofMemory_bytesIn (by decide) (by decide)]
  decide +kernel

theorem splitRead_bytes {next : Bus} (confined : Bus.Confined (cellsOf splitBus splitWrite.writable) splitBus next) :
    bytesIn next splitRead.readable = List.replicate 16 0 := by
  have inside : InRam splitBus splitRead.readable := ofMemory_inRam (by decide) (by decide)
  have disjoint : ∀ first ∈ splitRead.readable, ∀ second ∈ splitWrite.writable,
      first.address.toNat + first.length.toNat ≤ second.address.toNat ∨
        second.address.toNat + second.length.toNat ≤ first.address.toNat := by decide
  have apart : ∀ cell, cellsOf splitBus splitRead.readable cell → ¬ cellsOf splitBus splitWrite.writable cell := by
    rintro cell ⟨first, member, covers⟩ ⟨second, member', covers'⟩
    exact Bus.ofMemory_apart (disjoint first member second member') cell covers covers'
  rw [bytesIn_confined inside confined apart, splitBus, ofMemory_bytesIn (by decide) (by decide)]
  decide +kernel

theorem process_exact_written_back :
    ∃ written next, process splitWrite ⟨sixBytes, splitBus⟩ = .ok 1 ⟨written, next⟩ ∧
      Answers splitRead written next ⟨.ok, [7, 8, 9, 10], listOf written.store.data⟩ := by
  have memory : InMemory sixBytes.store := ⟨rfl, rfl, rfl⟩
  obtain ⟨⟨next, done, _, confined⟩, back⟩ := process_exact memory splitWrite_carried
  rw [splitWrite_bytes] at done back
  refine ⟨_, next, done,
    back (by decide) (by decide) _ _ done splitRead next (splitRead_carried confined) ?_ ?_ (by decide)⟩
  · rw [splitRead_bytes confined]
    decide
  · rw [splitRead_bytes confined]
    decide

end RvBoard.Virtio.Block
