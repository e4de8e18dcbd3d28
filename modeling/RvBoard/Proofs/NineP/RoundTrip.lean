import RvBoard.Proofs.NineP.Entries

/-!
# Messages read back

A message is its size, its type, its tag and its fields, one encoding behind the other. A reader that takes the same
kinds of fields in the same order gets the same fields; of a message that is cut short it gets those that are whole, and
then it is told that the message is truncated.
-/

set_option autoImplicit false

namespace RvBoard.NineP

/-- What a reader has to know of a field before it reads it. Raw bytes carry no length of their own. -/
inductive Kind where
  | u8
  | u16
  | u32
  | u64
  | string
  | bytes (length : Nat)
  | qid
deriving DecidableEq

namespace Field

def kind : Field → Kind
  | .u8 _ => .u8
  | .u16 _ => .u16
  | .u32 _ => .u32
  | .u64 _ => .u64
  | .string _ => .string
  | .bytes value => .bytes value.length
  | .qid _ => .qid

-- The length of a string has two bytes.
def Short : Field → Prop
  | .string text => text.utf8ByteSize ≤ 65535
  | _ => True

instance : DecidablePred Short
  | .string _ => inferInstanceAs (Decidable (_ ≤ _))
  | .u8 _ | .u16 _ | .u32 _ | .u64 _ | .bytes _ | .qid _ => inferInstanceAs (Decidable True)

end Field

/-- A whole message as one row of fields, its header in front. -/
def Message.whole (message : Message) : List Field :=
  .u32 (UInt32.ofNat message.size) :: .u8 message.type :: .u16 message.tag :: message.fields

namespace Reader

def field : Kind → Reader Field
  | .u8 => return .u8 (← u8)
  | .u16 => return .u16 (← u16)
  | .u32 => return .u32 (← u32)
  | .u64 => return .u64 (← u64)
  | .string => return .string (← string)
  | .bytes length => return .bytes (← take length)
  | .qid => return .qid (← qid)

def fields : List Kind → Reader (List Field)
  | [] => return []
  | kind :: rest => do
    let first ← field kind
    let others ← fields rest
    return first :: others

section Whole

theorem reads_field {field : Field} (short : field.Short) : Reads (Reader.field field.kind) field.encode field := by
  cases field with
  | u8 value => exact reads_map (reads_u8 value) Field.u8
  | u16 value => exact reads_map (reads_u16 value) Field.u16
  | u32 value => exact reads_map (reads_u32 value) Field.u32
  | u64 value => exact reads_map (reads_u64 value) Field.u64
  | string text => exact reads_map (reads_string (Nat.lt_succ_of_le short)) Field.string
  | bytes value => exact reads_map (reads_take value) Field.bytes
  | qid value => exact reads_map (reads_qid value) Field.qid

theorem reads_fields {fields : List Field} (short : ∀ field ∈ fields, field.Short) :
    Reads (Reader.fields (fields.map Field.kind)) (fields.flatMap Field.encode) fields := by
  induction fields with
  | nil => exact reads_pure []
  | cons first others ih =>
    obtain ⟨shortFirst, shortOthers⟩ := List.forall_mem_cons.mp short
    exact reads_bind (reads_field shortFirst) (reads_map (ih shortOthers) (first :: ·))

end Whole

def Stops {α : Type} (reader : Reader α) (bytes : List UInt8) : Prop :=
  ∀ cut, cut <+: bytes → cut.length < bytes.length → ∃ rest, reader cut = .error .truncated rest

section Truncated

variable {α β : Type}

theorem prefix_cases {cut front back : List UInt8} (part : cut <+: front ++ back)
    (proper : cut.length < (front ++ back).length) :
    (cut <+: front ∧ cut.length < front.length) ∨
      ∃ more, cut = front ++ more ∧ more <+: back ∧ more.length < back.length := by
  rw [List.length_append] at proper
  by_cases within : cut.length < front.length
  · exact .inl ⟨List.prefix_of_prefix_length_le part (List.prefix_append front back) (Nat.le_of_lt within), within⟩
  · obtain ⟨more, rfl⟩ := List.prefix_of_prefix_length_le (List.prefix_append front back) part (Nat.le_of_not_lt within)
    rw [List.length_append] at proper
    exact .inr ⟨more, rfl, (List.prefix_append_right_inj front).mp part, by omega⟩

theorem stops_bind {first : Reader α} {next : α → Reader β} {front back : List UInt8} {value : α}
    (reads : Reads first front value) (stopsFirst : Stops first front) (stopsNext : Stops (next value) back) :
    Stops (first >>= next) (front ++ back) := by
  intro cut part proper
  rcases prefix_cases part proper with ⟨inFront, less⟩ | ⟨more, rfl, inBack, less⟩
  · obtain ⟨rest, stopped⟩ := stopsFirst cut inFront less
    exact ⟨rest, bind_of_error stopped⟩
  · obtain ⟨rest, stopped⟩ := stopsNext more inBack less
    exact ⟨rest, (bind_of_ok (reads more)).trans stopped⟩

theorem stops_map {reader : Reader α} {bytes : List UInt8} (stops : Stops reader bytes) (make : α → β) :
    Stops (reader >>= fun value => pure (make value)) bytes := by
  intro cut part proper
  obtain ⟨rest, stopped⟩ := stops cut part proper
  exact ⟨rest, bind_of_error stopped⟩

theorem stops_take {n : Nat} {bytes : List UInt8} (length : bytes.length = n) : Stops (take n) bytes := by
  intro cut _ proper
  refine ⟨cut, ?_⟩
  unfold take
  rw [if_neg (by omega)]

theorem stops_number (n : Nat) (value : UInt64) : Stops (number n) (Bytes.littleEndian n value) :=
  stops_map (stops_take (Bytes.length_littleEndian n value)) Bytes.ofLittleEndian

theorem stops_u8 (value : UInt8) : Stops u8 [value] :=
  stops_map (stops_map (stops_take rfl) Bytes.ofLittleEndian) UInt64.toUInt8

theorem stops_u32 (value : UInt32) : Stops u32 (Bytes.littleEndian 4 value.toUInt64) :=
  stops_map (stops_number 4 _) UInt64.toUInt32

theorem stops_qid (value : Qid) : Stops qid value.encode := by
  have paths := stops_map (stops_number 8 value.path) (Qid.mk value.kind value.version)
  change Stops qid ([value.kind] ++ (Bytes.littleEndian 4 value.version.toUInt64 ++ Bytes.littleEndian 8 value.path))
  exact stops_bind (reads_u8 value.kind) (stops_u8 value.kind)
    (stops_bind (reads_u32 value.version) (stops_u32 value.version) paths)

theorem stops_string {text : String} (short : text.utf8ByteSize < 65536) : Stops string (encodeString text) := by
  obtain ⟨length, reads, long⟩ := reads_length short
  refine stops_bind reads (stops_map (stops_number 2 _) UInt64.toUInt16) ?_
  rw [long]
  intro cut part proper
  obtain ⟨rest, stopped⟩ := stops_take rfl cut part proper
  exact ⟨rest, bind_of_error stopped⟩

theorem stops_field {field : Field} (short : field.Short) : Stops (Reader.field field.kind) field.encode := by
  cases field with
  | u8 value => exact stops_map (stops_u8 value) Field.u8
  | u16 value => exact stops_map (stops_map (stops_number 2 _) UInt64.toUInt16) Field.u16
  | u32 value => exact stops_map (stops_u32 value) Field.u32
  | u64 value => exact stops_map (stops_number 8 value) Field.u64
  | string text => exact stops_map (stops_string (Nat.lt_succ_of_le short)) Field.string
  | bytes value => exact stops_map (stops_take rfl) Field.bytes
  | qid value => exact stops_map (stops_qid value) Field.qid

/-- How the reading of some fields ends on bytes that are cut short: the earlier fields lie in them and are read, and
the first one that does not lie wholly in them is found truncated. -/
structure StopsAt (fields : List Field) (cut : List UInt8) (earlier : List Field) (field : Field) : Prop where
  first : ∃ later, fields = earlier ++ field :: later
  whole : (earlier.flatMap Field.encode).length ≤ cut.length
  torn : cut.length < ((earlier ++ [field]).flatMap Field.encode).length
  read : ∃ rest, Reader.fields (earlier.map Field.kind) cut = .ok earlier rest ∧
    ∃ end_, Reader.field field.kind rest = .error .truncated end_
  fails : ∃ end_, Reader.fields (fields.map Field.kind) cut = .error .truncated end_

theorem fields_stop {fields : List Field} (short : ∀ field ∈ fields, field.Short) {cut : List UInt8}
    (part : cut <+: fields.flatMap Field.encode) (proper : cut.length < (fields.flatMap Field.encode).length) :
    ∃ earlier field, StopsAt fields cut earlier field := by
  induction fields generalizing cut with
  | nil => exact absurd proper (Nat.not_lt_zero _)
  | cons first others ih =>
    obtain ⟨shortFirst, shortOthers⟩ := List.forall_mem_cons.mp short
    rcases prefix_cases part proper with ⟨inFirst, less⟩ | ⟨more, rfl, inOthers, less⟩
    · obtain ⟨rest, stopped⟩ := stops_field shortFirst cut inFirst less
      refine ⟨[], first, ⟨others, rfl⟩, Nat.zero_le _, ?_, ⟨cut, rfl, rest, stopped⟩, rest, bind_of_error stopped⟩
      simpa using less
    · obtain ⟨earlier, field, stops⟩ := ih shortOthers inOthers less
      obtain ⟨later, split⟩ := stops.first
      obtain ⟨rest, reads, stopped⟩ := stops.read
      obtain ⟨end_, fails⟩ := stops.fails
      have front := reads_field shortFirst more
      refine ⟨first :: earlier, field, ⟨later, congrArg (first :: ·) split⟩, ?_, ?_, ⟨rest, ?_, stopped⟩, end_, ?_⟩
      · have whole := stops.whole
        simp only [List.flatMap_cons, List.length_append]
        omega
      · have torn := stops.torn
        simp only [List.cons_append, List.flatMap_cons, List.length_append] at torn ⊢
        omega
      · exact (bind_of_ok front).trans (bind_of_ok reads)
      · exact (bind_of_ok front).trans (bind_of_error fails)

end Truncated

section Bounded

theorem take_within (buffer : List UInt8) (n : Nat) : Keeps (· <:+ buffer) (take n) := by
  intro rest within
  unfold take
  by_cases enough : n ≤ rest.length
  · rw [if_pos enough]
    exact (List.drop_suffix n rest).trans within
  · rw [if_neg enough]
    exact within

theorem number_within (buffer : List UInt8) (n : Nat) : Keeps (· <:+ buffer) (number n) :=
  keeps_bind (take_within buffer n) fun _ => keeps_pure _

theorem u8_within (buffer : List UInt8) : Keeps (· <:+ buffer) u8 :=
  keeps_bind (number_within buffer 1) fun _ => keeps_pure _

theorem u16_within (buffer : List UInt8) : Keeps (· <:+ buffer) u16 :=
  keeps_bind (number_within buffer 2) fun _ => keeps_pure _

theorem u32_within (buffer : List UInt8) : Keeps (· <:+ buffer) u32 :=
  keeps_bind (number_within buffer 4) fun _ => keeps_pure _

theorem string_within (buffer : List UInt8) : Keeps (· <:+ buffer) string := by
  refine keeps_bind (u16_within buffer) fun length => keeps_bind (take_within buffer length.toNat) fun bytes => ?_
  cases String.fromUTF8? (Bytes.ofList bytes) with
  | some text => exact keeps_pure text
  | none => exact keeps_throw _

theorem qid_within (buffer : List UInt8) : Keeps (· <:+ buffer) qid :=
  keeps_bind (u8_within buffer) fun _ => keeps_bind (u32_within buffer) fun _ =>
    keeps_bind (number_within buffer 8) fun _ => keeps_pure _

theorem field_within (buffer : List UInt8) (kind : Kind) : Keeps (· <:+ buffer) (field kind) := by
  cases kind with
  | u8 => exact keeps_bind (u8_within buffer) fun _ => keeps_pure _
  | u16 => exact keeps_bind (u16_within buffer) fun _ => keeps_pure _
  | u32 => exact keeps_bind (u32_within buffer) fun _ => keeps_pure _
  | u64 => exact keeps_bind (number_within buffer 8) fun _ => keeps_pure _
  | string => exact keeps_bind (string_within buffer) fun _ => keeps_pure _
  | bytes length => exact keeps_bind (take_within buffer length) fun _ => keeps_pure _
  | qid => exact keeps_bind (qid_within buffer) fun _ => keeps_pure _

theorem fields_within (buffer : List UInt8) (kinds : List Kind) : Keeps (· <:+ buffer) (fields kinds) := by
  induction kinds with
  | nil => exact keeps_pure []
  | cons kind rest ih => exact keeps_bind (field_within buffer kind) fun _ => keeps_bind ih fun _ => keeps_pure _

end Bounded

section Exact

variable {buffer rest : List UInt8}

theorem take_exact {n : Nat} {bytes : List UInt8} (reads : take n buffer = .ok bytes rest) :
    buffer = bytes ++ rest ∧ bytes.length = n := by
  unfold take at reads
  by_cases enough : n ≤ buffer.length
  · rw [if_pos enough] at reads
    cases reads
    exact ⟨(List.take_append_drop n buffer).symm, List.length_take_of_le enough⟩
  · rw [if_neg enough] at reads
    cases reads

theorem number_exact {n : Nat} {value : UInt64} (short : n ≤ 8) (reads : number n buffer = .ok value rest) :
    buffer = Bytes.littleEndian n value ++ rest ∧ value.toNat < 256 ^ n := by
  obtain ⟨bytes, mid, taken, made⟩ := bind_ok.mp reads
  cases made
  obtain ⟨split, rfl⟩ := take_exact taken
  rw [Bytes.littleEndian_ofLittleEndian short]
  exact ⟨split, Bytes.ofLittleEndian_lt short⟩

theorem u8_exact {value : UInt8} (reads : u8 buffer = .ok value rest) : buffer = [value] ++ rest := by
  obtain ⟨word, mid, read, made⟩ := bind_ok.mp reads
  cases made
  exact (number_exact (by decide) read).1

theorem u16_exact {value : UInt16} (reads : u16 buffer = .ok value rest) :
    buffer = Bytes.littleEndian 2 value.toUInt64 ++ rest := by
  obtain ⟨word, mid, read, made⟩ := bind_ok.mp reads
  cases made
  obtain ⟨split, small⟩ := number_exact (by decide) read
  have same : word.toUInt16.toUInt64 = word := by
    apply UInt64.toNat_inj.mp
    rw [UInt16.toNat_toUInt64, UInt64.toNat_toUInt16]
    exact Nat.mod_eq_of_lt small
  rw [same]
  exact split

theorem u32_exact {value : UInt32} (reads : u32 buffer = .ok value rest) :
    buffer = Bytes.littleEndian 4 value.toUInt64 ++ rest := by
  obtain ⟨word, mid, read, made⟩ := bind_ok.mp reads
  cases made
  obtain ⟨split, small⟩ := number_exact (by decide) read
  have same : word.toUInt32.toUInt64 = word := by
    apply UInt64.toNat_inj.mp
    rw [UInt32.toNat_toUInt64, UInt64.toNat_toUInt32]
    exact Nat.mod_eq_of_lt small
  rw [same]
  exact split

theorem string_exact {text : String} (reads : string buffer = .ok text rest) : buffer = encodeString text ++ rest := by
  obtain ⟨length, mid, read, others⟩ := bind_ok.mp reads
  obtain ⟨bytes, last, taken, decodes⟩ := bind_ok.mp others
  obtain ⟨split, long⟩ := take_exact taken
  cases decoded : String.fromUTF8? (Bytes.ofList bytes) with
  | none =>
    rw [decoded] at decodes
    cases decodes
  | some found =>
    rw [decoded] at decodes
    cases decodes
    have spelled : text.toUTF8.toList = bytes := by rw [Bytes.toUTF8_fromUTF8 decoded, Bytes.toList_ofList]
    have word : UInt64.ofNat bytes.length = length.toUInt64 := by
      rw [long, ← UInt16.toNat_toUInt64, UInt64.ofNat_toNat]
    rw [u16_exact read, split]
    simp only [encodeString, spelled, word, List.append_assoc]

theorem qid_exact {value : Qid} (reads : qid buffer = .ok value rest) : buffer = value.encode ++ rest := by
  obtain ⟨kind, second, readKind, others⟩ := bind_ok.mp reads
  obtain ⟨version, third, readVersion, more⟩ := bind_ok.mp others
  obtain ⟨path, last, readPath, made⟩ := bind_ok.mp more
  cases made
  rw [u8_exact readKind, u32_exact readVersion, (number_exact (by decide) readPath).1]
  simp [Qid.encode]

theorem field_exact {kind : Kind} {value : Field} (reads : field kind buffer = .ok value rest) :
    buffer = value.encode ++ rest ∧ value.kind = kind := by
  cases kind <;> obtain ⟨given, last, read, made⟩ := bind_ok.mp reads <;> cases made
  case u8 => exact ⟨u8_exact read, rfl⟩
  case u16 => exact ⟨u16_exact read, rfl⟩
  case u32 => exact ⟨u32_exact read, rfl⟩
  case u64 => exact ⟨(number_exact (by decide) read).1, rfl⟩
  case string => exact ⟨string_exact read, rfl⟩
  case bytes => exact ⟨(take_exact read).1, congrArg Kind.bytes (take_exact read).2⟩
  case qid => exact ⟨qid_exact read, rfl⟩

theorem fields_exact {kinds : List Kind} {values : List Field} (reads : fields kinds buffer = .ok values rest) :
    buffer = values.flatMap Field.encode ++ rest ∧ values.map Field.kind = kinds := by
  induction kinds generalizing buffer values with
  | nil =>
    cases reads
    exact ⟨rfl, rfl⟩
  | cons kind kinds ih =>
    obtain ⟨first, mid, readFirst, more⟩ := bind_ok.mp reads
    obtain ⟨others, last, readOthers, made⟩ := bind_ok.mp more
    cases made
    obtain ⟨split, same⟩ := field_exact readFirst
    obtain ⟨splits, sames⟩ := ih readOthers
    rw [split, splits, List.map_cons, same, sames, List.flatMap_cons, List.append_assoc]
    exact ⟨rfl, rfl⟩

end Exact

end Reader

theorem Message.bytes_whole {message : Message} (small : message.size < 2 ^ 32) :
    message.bytes = message.whole.flatMap Field.encode := by
  have size : (UInt32.ofNat message.size).toUInt64 = UInt64.ofNat message.size := by
    apply UInt64.toNat_inj.mp
    rw [UInt32.toNat_toUInt64, UInt32.toNat_ofNat', UInt64.toNat_ofNat', Nat.mod_eq_of_lt small, Nat.mod_eq_of_lt (by omega)]
  simp [Message.bytes, Message.whole, Message.body, Field.encode, size]

/-- A message of less than 4 GiB, with strings of at most 65535 bytes, is read back whole: its size, its type, its tag
and its fields, and nothing is left. Of every proper part from its front the fields that lie in it are read, and the
first that does not is found truncated. No reading of any buffer goes past its end: what is left is the end of the
buffer, and what is read off is what stands in front of that. -/
theorem messages_read_back (message : Message) (short : ∀ field ∈ message.fields, field.Short)
    (small : message.size < 2 ^ 32) :
    let kinds := message.whole.map Field.kind
    (UInt32.ofNat message.size).toNat = message.bytes.length ∧
      Reader.fields kinds message.bytes = .ok message.whole [] ∧
      (∀ cut, cut <+: message.bytes → cut ≠ message.bytes →
        ∃ earlier field, Reader.StopsAt message.whole cut earlier field) ∧
      ∀ buffer kinds, left (Reader.fields kinds buffer) <:+ buffer ∧
        ∀ values rest, Reader.fields kinds buffer = .ok values rest →
          buffer = values.flatMap Field.encode ++ rest ∧ values.map Field.kind = kinds := by
  intro kinds
  have shortWhole : ∀ field ∈ message.whole, field.Short := by
    refine List.forall_mem_cons.mpr ⟨trivial, List.forall_mem_cons.mpr ⟨trivial, ?_⟩⟩
    exact List.forall_mem_cons.mpr ⟨trivial, short⟩
  have spelled := Message.bytes_whole small
  have sized : message.bytes.length = message.size := message.length_bytes
  refine ⟨?_, ?_, ?_, fun buffer kinds => ⟨?_, fun values rest => Reader.fields_exact⟩⟩
  · rw [sized, UInt32.toNat_ofNat']
    exact Nat.mod_eq_of_lt small
  · have reads := Reader.reads_fields shortWhole []
    rwa [List.append_nil, ← spelled] at reads
  · intro cut part proper
    have shorter : cut.length < message.bytes.length :=
      Nat.lt_of_le_of_ne part.length_le fun same => proper (part.eq_of_length same)
    rw [spelled] at part shorter
    exact Reader.fields_stop shortWhole part shorter
  · exact Reader.fields_within buffer kinds buffer (List.suffix_refl buffer)

def listed : Message :=
  ⟨41, 7, [.u64 9, .qid ⟨0x80, 1, 2⟩, .string "näher", .bytes [1, 2, 3]]⟩

theorem messages_read_back_listed :
    (∀ field ∈ listed.fields, field.Short) ∧ listed.size < 2 ^ 32 ∧
      Reader.fields [.u32, .u8, .u16, .u64, .qid, .string, .bytes 3] listed.bytes =
        .ok [.u32 39, .u8 41, .u16 7, .u64 9, .qid ⟨0x80, 1, 2⟩, .string "näher", .bytes [1, 2, 3]] [] ∧
      ∃ earlier field, Reader.StopsAt listed.whole (listed.bytes.take 32) earlier field := by
  have short : ∀ field ∈ listed.fields, field.Short := by decide
  have size : listed.size = 39 := by cbv
  obtain ⟨_, whole, cuts, _⟩ := messages_read_back listed short (by omega)
  have length : listed.bytes.length = 39 := listed.length_bytes.trans size
  have header : listed.whole = .u32 39 :: .u8 41 :: .u16 7 :: listed.fields := by
    rw [Message.whole, size]
    rfl
  rw [header] at whole
  refine ⟨short, by omega, whole, cuts _ (List.take_prefix 32 listed.bytes) fun same => ?_⟩
  have cut := congrArg List.length same
  rw [List.length_take, length] at cut
  exact absurd cut (by decide)

end RvBoard.NineP
