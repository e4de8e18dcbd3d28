import RvBoard.Proofs.NineP.Replies

/-!
# Entries on the wire

How a client takes the entries of a directory out of an answer. Behind its length the data of the answer is one whole
entry after the other.
-/

set_option autoImplicit false

namespace RvBoard.NineP

-- An entry as a client receives it. From its offset the listing goes on after it.
structure Received where
  qid : Qid
  offset : UInt64
  type : UInt8
  name : String

namespace Reader

def qid : Reader Qid := do
  return ⟨← u8, ← u32, ← u64⟩

def entry : Reader Received := do
  return ⟨← qid, ← u64, ← u8, ← string⟩

-- The entries that some bytes are made of, with nothing left. Each takes at least one byte.
def entries : Nat → List UInt8 → Option (List Received)
  | _, [] => some []
  | 0, _ :: _ => none
  | fuel + 1, byte :: rest =>
    match entry (byte :: rest) with
    | .ok first rest => (entries fuel rest).map (first :: ·)
    | .error _ _ => none

-- Whatever follows them, the reader takes these bytes and makes this of them.
def Reads {α : Type} (reader : Reader α) (bytes : List UInt8) (value : α) : Prop :=
  ∀ rest, reader (bytes ++ rest) = .ok value rest

section Reading

variable {α β : Type}

theorem reads_pure (value : α) : Reads (pure value) [] value :=
  fun _ => rfl

theorem reads_bind {first : Reader α} {next : α → Reader β} {front back : List UInt8} {value : α} {result : β}
    (starts : Reads first front value) (follows : Reads (next value) back result) :
    Reads (first >>= next) (front ++ back) result := by
  intro rest
  rw [List.append_assoc]
  exact (bind_of_ok (starts (back ++ rest))).trans (follows rest)

theorem reads_map {reader : Reader α} {bytes : List UInt8} {value : α} (reads : Reads reader bytes value) (make : α → β) :
    Reads (reader >>= fun value => pure (make value)) bytes (make value) := by
  have made : Reads (reader >>= fun value => pure (make value)) (bytes ++ []) (make value) :=
    reads_bind reads (reads_pure _)
  rwa [List.append_nil] at made

end Reading

theorem reads_take (bytes : List UInt8) : Reads (take bytes.length) bytes bytes := by
  intro rest
  unfold take
  rw [if_pos (by simp), List.take_left, List.drop_left]

theorem reads_number {n : Nat} {value : UInt64} (short : n ≤ 8) (small : value.toNat < 256 ^ n) :
    Reads (number n) (Bytes.littleEndian n value) value := by
  have taken := reads_take (Bytes.littleEndian n value)
  rw [Bytes.length_littleEndian] at taken
  have made := reads_map taken Bytes.ofLittleEndian
  rwa [Bytes.ofLittleEndian_littleEndian short small] at made

theorem reads_u8 (value : UInt8) : Reads u8 [value] value := by
  have byte : Bytes.littleEndian 1 value.toUInt64 = [value] := by simp [Bytes.littleEndian]
  have small : value.toUInt64.toNat < 256 ^ 1 := by simpa using value.toNat_lt
  have made := reads_map (reads_number (by decide) small) UInt64.toUInt8
  rw [byte, UInt8.toUInt8_toUInt64] at made
  exact made

theorem reads_u32 (value : UInt32) : Reads u32 (Bytes.littleEndian 4 value.toUInt64) value := by
  have small : value.toUInt64.toNat < 256 ^ 4 := by simpa using value.toNat_lt
  have made := reads_map (reads_number (by decide) small) UInt64.toUInt32
  rw [UInt32.toUInt32_toUInt64] at made
  exact made

theorem reads_u64 (value : UInt64) : Reads u64 (Bytes.littleEndian 8 value) value :=
  reads_number (by decide) (by simpa using value.toNat_lt)

theorem reads_qid (value : Qid) : Reads qid value.encode value := by
  have paths := reads_map (reads_u64 value.path) (Qid.mk value.kind value.version)
  change Reads qid ([value.kind] ++ (Bytes.littleEndian 4 value.version.toUInt64 ++ Bytes.littleEndian 8 value.path)) value
  exact reads_bind (reads_u8 value.kind) (reads_bind (reads_u32 value.version) paths)

theorem reads_u16 (value : UInt16) : Reads u16 (Bytes.littleEndian 2 value.toUInt64) value := by
  have small : value.toUInt64.toNat < 256 ^ 2 := by simpa using value.toNat_lt
  have made := reads_map (reads_number (by decide) small) UInt64.toUInt16
  rw [UInt16.toUInt16_toUInt64] at made
  exact made

theorem reads_length {text : String} (short : text.utf8ByteSize < 65536) :
    ∃ length : UInt16, Reads u16 (Bytes.littleEndian 2 (UInt64.ofNat text.toUTF8.toList.length)) length ∧
      length.toNat = text.toUTF8.toList.length := by
  have size : text.toUTF8.toList.length = text.utf8ByteSize := Bytes.length_toList _
  have small : (UInt64.ofNat text.toUTF8.toList.length).toNat = text.toUTF8.toList.length := by
    rw [UInt64.toNat_ofNat']
    exact Nat.mod_eq_of_lt (by omega)
  refine ⟨(UInt64.ofNat text.toUTF8.toList.length).toUInt16, ?_, ?_⟩
  · exact reads_map (reads_number (by decide) (by rw [small, size]; exact short)) UInt64.toUInt16
  · rw [UInt64.toNat_toUInt16, small]
    exact Nat.mod_eq_of_lt (by omega)

theorem reads_string {text : String} (short : text.utf8ByteSize < 65536) : Reads string (encodeString text) text := by
  obtain ⟨length, reads, long⟩ := reads_length short
  refine reads_bind reads ?_
  rw [long]
  intro rest
  rw [bind_of_ok (reads_take text.toUTF8.toList rest), Bytes.ofList_toList, Bytes.fromUTF8_toUTF8]
  rfl

theorem entries_reads {front : List UInt8} {first : Received} (reads : Reads entry front first) (some : front ≠ [])
    (fuel : Nat) (back : List UInt8) : entries (fuel + 1) (front ++ back) = (entries fuel back).map (first :: ·) := by
  have read := reads back
  cases front with
  | nil => exact absurd rfl some
  | cons byte front =>
    rw [List.cons_append] at read ⊢
    rw [entries, read]

end Reader

-- The data of an answer, when it is as long as it says.
def Message.data? (answer : Message) : Option (List UInt8) :=
  match Reader.u32 answer.body with
  | .ok length data => if data.length = length.toNat then some data else none
  | .error _ _ => none

def Message.entries? (answer : Message) : Option (List Received) :=
  if answer.type = errorType then none else answer.data?.bind fun data => Reader.entries data.length data

theorem Message.data_fields {answer : Message} {size : Nat} {fields : List Field}
    (shown : answer.fields = .u32 (UInt32.ofNat size) :: fields) (whole : fieldsSize fields = size) (small : size < 2 ^ 32) :
    answer.data? = some (fields.flatMap Field.encode) := by
  have body : answer.body = Bytes.littleEndian 4 (UInt32.ofNat size).toUInt64 ++ fields.flatMap Field.encode := by
    rw [Message.body, shown]
    rfl
  have same : (UInt32.ofNat size).toNat = size := UInt32.toNat_ofNat_of_lt' small
  rw [Message.data?, body, Reader.reads_u32]
  dsimp only
  rw [same]
  exact if_pos whole

namespace Server

-- What a client receives of an entry, and of entries from a place in the listing on.
def Listed.received (entry : Listed) (index : Nat) : Received :=
  ⟨entry.qid, UInt64.ofNat (index + 1), entry.kind.entryType, entry.name⟩

def received (index : Nat) : List Listed → List Received
  | [] => []
  | entry :: rest => entry.received index :: received (index + 1) rest

theorem received_length (index : Nat) (entries : List Listed) : (received index entries).length = entries.length := by
  induction entries generalizing index with
  | nil => rfl
  | cons entry rest ih => simp [received, ih]

theorem received_offsets {index : Nat} {entries : List Listed} (few : index + entries.length < 2 ^ 64) :
    (received index entries).map (·.offset.toNat) = List.range' (index + 1) entries.length := by
  induction entries generalizing index with
  | nil => rfl
  | cons entry rest ih =>
    rw [List.length_cons] at few
    have here : (UInt64.ofNat (index + 1)).toNat = index + 1 := UInt64.toNat_ofNat_of_lt' (by change _ < 2 ^ 64; omega)
    rw [received, List.map_cons, ih (by omega), List.length_cons, List.range'_succ, Listed.received]
    simp only [here]

theorem mem_received {index : Nat} {entries : List Listed} {entry : Received} (member : entry ∈ received index entries) :
    ∃ (k : Nat) (listed : Listed), entries[k]? = some listed ∧ entry = listed.received (index + k) := by
  induction entries generalizing index with
  | nil => cases member
  | cons first rest ih =>
    rcases List.mem_cons.mp member with rfl | later
    · exact ⟨0, first, rfl, rfl⟩
    · obtain ⟨k, listed, found, same⟩ := ih later
      exact ⟨k + 1, listed, found, by rw [same, Nat.add_assoc, Nat.add_comm 1 k]⟩

theorem reads_entry {entry : Listed} (short : entry.name.utf8ByteSize < 65536) (index : Nat) :
    Reader.Reads Reader.entry ((entry.fields index).flatMap Field.encode) (entry.received index) := by
  have names := Reader.reads_map (Reader.reads_string short)
    (Received.mk entry.qid (UInt64.ofNat (index + 1)) entry.kind.entryType)
  have bytes : (entry.fields index).flatMap Field.encode = entry.qid.encode ++
      (Bytes.littleEndian 8 (UInt64.ofNat (index + 1)) ++ ([entry.kind.entryType] ++ encodeString entry.name)) := by
    simp [Listed.fields, Field.encode]
  rw [bytes]
  exact Reader.reads_bind (Reader.reads_qid _) (Reader.reads_bind (Reader.reads_u64 _)
    (Reader.reads_bind (Reader.reads_u8 _) names))

theorem packed_page (index : Nat) {room : Nat} (small : room < 65536) (entries : List Listed) :
    ∃ page, page <+: entries ∧ (∀ entry ∈ entries.head?, entry.size ≤ room → page ≠ []) ∧
      ∀ fuel, ((packed index room entries).1.flatMap Field.encode).length ≤ fuel →
        Reader.entries fuel ((packed index room entries).1.flatMap Field.encode) = some (received index page) := by
  induction entries generalizing index room with
  | nil => exact ⟨[], List.prefix_rfl, by simp, fun fuel _ => by cases fuel <;> rfl⟩
  | cons entry rest ih =>
    unfold packed
    by_cases fits : entry.size ≤ room
    · have left : room - entry.size < 65536 := by omega
      obtain ⟨page, first, _, reads⟩ := ih (index + 1) left
      rw [if_pos fits]
      refine ⟨entry :: page, List.cons_prefix_cons.mpr ⟨rfl, first⟩, by simp, fun fuel enough => ?_⟩
      have short : entry.name.utf8ByteSize < 65536 := by
        simp only [Listed.size] at fits
        omega
      have some : (entry.fields index).flatMap Field.encode ≠ [] := by
        simp [Listed.fields, Field.encode, Qid.encode]
      have longer := List.length_pos_iff.mpr some
      dsimp only at enough ⊢
      rw [List.flatMap_append] at enough ⊢
      rw [List.length_append] at enough
      obtain ⟨less, rfl⟩ := Nat.exists_eq_add_one_of_ne_zero (show fuel ≠ 0 by omega)
      rw [Reader.entries_reads (reads_entry short index) some, reads less (by omega)]
      rfl
    · rw [if_neg fits]
      refine ⟨[], List.nil_prefix, ?_, fun fuel _ => by cases fuel <;> rfl⟩
      intro other same fitting
      cases same
      exact absurd fitting fits

end Server

end RvBoard.NineP
