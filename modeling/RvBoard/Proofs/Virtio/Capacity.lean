import RvBoard.Proofs.Virtio.BlockRequests

/-!
# Where the disk ends

The configuration tells the driver how many whole sectors there are, but a request is refused by its bytes. The two
agree for a store of whole sectors. The sector that a longer store ends in is not counted, and yet its bytes are read
and written.
-/

set_option autoImplicit false

namespace RvBoard.Virtio.Block

open Bytes (listOf overlay)

/-- How much of the disk a request reads or writes: a read fills the room in front of the status, and a write brings
what follows the header. -/
def span (chain : Chain) : Option RequestType → Nat
  | some .input => chain.writableLength - 1
  | some .output => chain.readableLength - headerSize
  | _ => 0

-- The request reads or writes this byte of the disk.
def Touches (chain : Chain) (header : ByteArray) (byte : Nat) : Prop :=
  let first := (Bytes.wordAt header 8 8).toNat * sectorSize
  first ≤ byte ∧ byte < first + span chain (RequestType.ofNumber? (Bytes.wordAt header 0 4).toUInt32)

def Beyond (chain : Chain) (header : ByteArray) (block : Block) : Prop :=
  ∃ byte, Touches chain header byte ∧ (Bytes.wordAt block.config 0 8).toNat ≤ byte / sectorSize

def Past (chain : Chain) (header : ByteArray) (block : Block) : Prop :=
  ∃ byte, Touches chain header byte ∧ block.store.length ≤ byte

-- The driver gets the status of an error, and nothing else happens.
def refusal (chain : Chain) (block : Block) (bus : Bus) : EStateM.Result MemFault (Dma Block) UInt32 :=
  match chain.writeAt (chain.writableLength - 1) ⟨#[Status.ioError.byte]⟩ bus with
  | .ok _ next => .ok 1 ⟨block, next⟩
  | .error fault next => .error fault ⟨block, next⟩

section Capacity

variable {block : Block}

theorem published_capacity (short : block.store.length < UInt64.size) :
    (Bytes.wordAt block.config 0 8).toNat = block.store.length / sectorSize := by
  have counted : block.store.length / sectorSize < UInt64.size := Nat.lt_of_le_of_lt (Nat.div_le_self ..) short
  have fits : 0 + 8 ≤ block.config.size := by
    rw [← Bytes.length_listOf]
    change 0 + 8 ≤ (Bytes.littleEndian 8 _ ++ _ ++ _ ++ _ ++ _ : List UInt8).length
    simp only [List.length_append, Bytes.length_littleEndian]
    omega
  have front : ((listOf block.config).drop 0).take 8 = Bytes.littleEndian 8 (UInt64.ofNat block.capacity) := by
    change (Bytes.littleEndian 8 _ ++ _ ++ _ ++ _ ++ _ : List UInt8).take 8 = _
    simp only [List.append_assoc]
    exact List.take_left' (Bytes.length_littleEndian ..)
  rw [Bytes.wordAt_listOf _ fits, front, Bytes.ofLittleEndian_littleEndian (Nat.le_refl 8) (UInt64.toNat_lt _)]
  exact UInt64.toNat_ofNat_of_lt' counted

variable {chain : Chain} {header : ByteArray}

theorem beyond_of_past (short : block.store.length < UInt64.size) (past : Past chain header block) :
    Beyond chain header block := by
  obtain ⟨byte, touched, behind⟩ := past
  refine ⟨byte, touched, ?_⟩
  rw [published_capacity short]
  exact Nat.div_le_div_right behind

theorem past_of_beyond (short : block.store.length < UInt64.size) (whole : sectorSize ∣ block.store.length)
    (beyond : Beyond chain header block) : Past chain header block := by
  obtain ⟨byte, touched, behind⟩ := beyond
  refine ⟨byte, touched, ?_⟩
  rw [published_capacity short] at behind
  calc block.store.length = block.store.length / sectorSize * sectorSize := (Nat.div_mul_cancel whole).symm
    _ ≤ byte / sectorSize * sectorSize := Nat.mul_le_mul_right _ behind
    _ ≤ byte := Nat.div_mul_le_self ..

end Capacity

section Requests

variable {block : Block} {chain : Chain} {header : ByteArray} {bus mid : Bus}

theorem inRange_past {sector : UInt64} {n byte : Nat} (touched : byte < sector.toNat * sectorSize + n)
    (behind : block.store.length ≤ byte) : block.inRange sector n = false := by
  have outside : ¬ sector.toNat * sectorSize + n ≤ block.store.length := by omega
  simp [inRange, outside]

theorem touches_cases {byte : Nat} (touched : Touches chain header byte) :
    let type := RequestType.ofNumber? (Bytes.wordAt header 0 4).toUInt32
    let first := (Bytes.wordAt header 8 8).toNat * sectorSize
    first ≤ byte ∧ (type = some .input ∧ byte < first + (chain.writableLength - 1) ∨
      type = some .output ∧ byte < first + (chain.readableLength - headerSize)) := by
  intro type first
  obtain ⟨above, below⟩ := touched
  refine ⟨above, ?_⟩
  change byte < first + span chain type at below
  have some : span chain type ≠ 0 := by omega
  cases kind : type with
  | none => exact absurd (congrArg (span chain) kind) some
  | some asked =>
    rw [kind] at below some
    cases asked with
    | input => exact .inl ⟨rfl, below⟩
    | output => exact .inr ⟨rfl, below⟩
    | flush => exact absurd rfl some
    | getId => exact absurd rfl some

theorem perform_refused (past : Past chain header block) :
    perform chain (Bytes.wordAt header 8 8) (chain.writableLength - 1)
        (RequestType.ofNumber? (Bytes.wordAt header 0 4).toUInt32) ⟨block, bus⟩ =
      .ok (.ioError, 0) ⟨block, bus⟩ := by
  obtain ⟨byte, touched, behind⟩ := past
  rcases (touches_cases touched).2 with ⟨input, below⟩ | ⟨output, below⟩
  · have none : block.readSectors (Bytes.wordAt header 8 8) (chain.writableLength - 1) = none := by
      rw [readSectors, inRange_past below behind, if_neg Bool.false_ne_true]
    rw [input]
    refine (bind_of_ok backend_run).trans ?_
    rw [none]
    rfl
  · rw [output]
    refine (bind_of_ok backend_run).trans ?_
    rw [inRange_past below behind]
    rfl

theorem process_refused (long : headerSize ≤ chain.readableLength) (room : 1 ≤ chain.writableLength)
    (read : chain.readPrefix headerSize bus = .ok header mid) (past : Past chain header block) :
    process chain ⟨block, bus⟩ = refusal chain block mid := by
  unfold process
  dsimp only
  rw [if_neg (Nat.ne_of_gt room), if_neg (Nat.not_lt.mpr long)]
  refine (bind_of_ok (onBus_of_ok read)).trans ((bind_of_ok (perform_refused past)).trans ?_)
  unfold refusal
  cases written : chain.writeAt (chain.writableLength - 1) ⟨#[Status.ioError.byte]⟩ mid with
  | ok value next => exact bind_of_ok (onBus_of_ok written)
  | error fault next =>
    refine bind_of_error ?_
    simp only [DmaM.onBus, written]

theorem answers_refused (carried : Carried chain bus) (read : chain.readPrefix headerSize bus = .ok header mid)
    (past : Past chain header block) : Answers chain block bus ⟨.ioError, [], listOf block.store.data⟩ := by
  obtain ⟨_, type, sector⟩ := header_shows carried read
  have performed : perform chain _ _ _ ⟨block, bus⟩ = .ok (.ioError, 0) ⟨block, bus⟩ := perform_refused past
  rw [type, sector] at performed
  exact (served_dry performed).answers carried (Nat.zero_le _)

theorem replyTo_ok (memory : InMemory block.store) (short : block.store.length < UInt64.size)
    (carried : Carried chain bus) (read : chain.readPrefix headerSize bus = .ok header mid) {byte : Nat}
    (touched : Touches chain header byte) (inside : ¬ Past chain header block)
    (unlocked : typeOf (bytesIn bus chain.readable) = some .output → block.store.readOnly = false) :
    (replyTo (listOf block.store.data) block.store.readOnly (bytesIn bus chain.readable)
      (chain.writableLength - 1)).status = .ok := by
  obtain ⟨_, type, sector⟩ := header_shows carried read
  have payload : (payloadOf (bytesIn bus chain.readable)).length = chain.readableLength - headerSize := by
    rw [payloadOf, List.length_drop, carried.readable.length]
    rfl
  have within : Within (listOf block.store.data) (sectorOf (bytesIn bus chain.readable))
      (span chain (typeOf (bytesIn bus chain.readable))) := by
    obtain ⟨above, below⟩ := touched
    rw [type] at below
    have last : ¬ block.store.length ≤ (Bytes.wordAt header 8 8).toNat * sectorSize +
        span chain (typeOf (bytesIn bus chain.readable)) - 1 :=
      fun behind => inside ⟨_, ⟨by omega, by rw [type]; omega⟩, behind⟩
    rw [Within, Bytes.length_listOf, ← memory.whole, ← sector]
    omega
  have kinds := (touches_cases touched).2
  rw [type] at kinds
  unfold replyTo
  rcases kinds with ⟨input, _⟩ | ⟨output, _⟩
  · rw [input] at within ⊢
    dsimp only
    rw [if_pos (show Within _ _ (chain.writableLength - 1) from within)]
  · have free := unlocked output
    rw [output] at within ⊢
    change Within _ _ (chain.readableLength - headerSize) at within
    rw [← payload] at within
    dsimp only
    rw [if_pos ⟨free, within⟩]

/-- A request for a byte behind the store is refused: the driver gets the status of an error, no data, and the store is
as before. That is any request for a sector at or beyond the published capacity, if the store is made of whole sectors.
A request that reaches into the sector that another store ends in, and not over the end, is carried out. -/
theorem requests_end_at_store (short : block.store.length < UInt64.size) (long : headerSize ≤ chain.readableLength)
    (room : 1 ≤ chain.writableLength) (read : chain.readPrefix headerSize bus = .ok header mid) :
    let request := bytesIn bus chain.readable
    let reply := replyTo (listOf block.store.data) block.store.readOnly request (chain.writableLength - 1)
    (Bytes.wordAt block.config 0 8).toNat = block.store.length / sectorSize ∧
      (Past chain header block → Beyond chain header block ∧ process chain ⟨block, bus⟩ = refusal chain block mid ∧
        (Carried chain bus → Answers chain block bus ⟨.ioError, [], listOf block.store.data⟩)) ∧
      (sectorSize ∣ block.store.length → (Beyond chain header block ↔ Past chain header block)) ∧
      (Beyond chain header block → ¬ Past chain header block → InMemory block.store → Carried chain bus →
        (typeOf request = some .output → block.store.readOnly = false) →
        reply.status = .ok ∧ Answers chain block bus reply) := by
  intro request reply
  refine ⟨published_capacity short, fun past => ?_, fun whole => ?_, ?_⟩
  · refine ⟨beyond_of_past short past, process_refused long room read past, fun carried => ?_⟩
    exact answers_refused carried read past
  · exact ⟨past_of_beyond short whole, beyond_of_past short⟩
  · rintro ⟨byte, touched, _⟩ inside memory carried unlocked
    exact ⟨replyTo_ok memory short carried read touched inside unlocked, process_answers memory carried⟩

end Requests

def threeBytes : Block :=
  ⟨BlockStore.ofBytes .memory ⟨#[1, 2, 3]⟩ false⟩

theorem splitWrite_touches :
    ∃ header, splitWrite.readPrefix headerSize splitBus = .ok header splitBus ∧
      ∀ byte < 4, Touches splitWrite header byte := by
  obtain ⟨header, read, _⟩ := readPrefix_reads splitWrite_carried.readable headerSize
  obtain ⟨_, type, sector⟩ := header_shows splitWrite_carried read
  rw [splitWrite_bytes] at type sector
  refine ⟨header, read, fun byte early => ?_⟩
  rw [Touches, type, sector]
  exact ⟨Nat.zero_le byte, early⟩

theorem requests_end_at_third_byte :
    process splitWrite ⟨threeBytes, splitBus⟩ = refusal splitWrite threeBytes splitBus ∧
      Answers splitWrite threeBytes splitBus ⟨.ioError, [], [1, 2, 3]⟩ := by
  obtain ⟨header, read, touches⟩ := splitWrite_touches
  have past : Past splitWrite header threeBytes := ⟨3, touches 3 (by decide), Nat.le_refl 3⟩
  have short : threeBytes.store.length < UInt64.size := by decide
  obtain ⟨_, refused, _⟩ := requests_end_at_store short (by decide) (by decide) read
  obtain ⟨_, same, answers⟩ := refused past
  exact ⟨same, answers splitWrite_carried⟩

theorem uncounted_sector_written :
    ∃ header, splitWrite.readPrefix headerSize splitBus = .ok header splitBus ∧ Beyond splitWrite header sixBytes ∧
      Answers splitWrite sixBytes splitBus ⟨.ok, [], [7, 8, 9, 10, 5, 6]⟩ := by
  obtain ⟨header, read, touches⟩ := splitWrite_touches
  have beyond : Beyond splitWrite header sixBytes := by
    refine ⟨0, touches 0 (by decide), ?_⟩
    rw [published_capacity (by decide)]
    decide
  have memory : InMemory sixBytes.store := ⟨rfl, rfl, rfl⟩
  have answers := process_answers memory splitWrite_carried
  rw [splitWrite_bytes] at answers
  exact ⟨header, read, beyond, answers⟩

end RvBoard.Virtio.Block
