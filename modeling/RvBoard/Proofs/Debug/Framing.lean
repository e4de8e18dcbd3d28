import RvBoard.Debug.Packet

/-!
# Packets on the wire

What is framed is read back, however the bytes are cut on their way: one event for each payload, and
a payload that is too long costs nothing but itself.
-/

set_option autoImplicit false

namespace RvBoard.Debug.Packet

-- What the reader makes of a payload that was framed.
def received (payload : List UInt8) : Event :=
  if payload.length ≤ maxSize then .packet payload else .corrupted

def summed (sum : UInt8) (bytes : List UInt8) : UInt8 :=
  bytes.foldl (fun sum byte => sum + byte) sum

theorem summed_append (sum : UInt8) (a b : List UInt8) : summed sum (a ++ b) = summed (summed sum a) b := by
  simp [summed]

theorem frame_eq (payload : List UInt8) :
    frame payload = start :: (payload.flatMap escapeByte ++
      stop :: (Hex.byte (summed 0 (payload.flatMap escapeByte))).map fun char => UInt8.ofNat char.toNat) := by
  simp [frame, summed]

theorem escapeByte_ne_stop (byte : UInt8) : ∀ shown ∈ escapeByte byte, shown ≠ stop := by
  intro shown member
  by_cases escaped : needsEscape byte
  · simp only [escapeByte, if_pos escaped, List.mem_cons, List.not_mem_nil, or_false] at member
    simp only [needsEscape, Bool.or_eq_true, beq_iff_eq, or_assoc] at escaped
    rcases member with rfl | rfl
    · decide
    · rcases escaped with rfl | rfl | rfl | rfl <;> decide
  · simp only [escapeByte, if_neg escaped, List.mem_singleton] at member
    rintro rfl
    subst member
    exact escaped rfl

theorem digitValue_digit (n : Nat) :
    Hex.digitValue? (UInt8.ofNat (Hex.digit n).toNat) = some (UInt8.ofNat (n % 16)) := by
  have small : n % 16 < 16 := Nat.mod_lt n (by decide)
  have digits : ∀ k < 16, Hex.digitValue? (UInt8.ofNat (Nat.digitChar k).toNat) = some (UInt8.ofNat k) := by decide
  exact digits (n % 16) small

theorem nibbles (byte : UInt8) : UInt8.ofNat (byte.toNat / 16 % 16) * 16 + UInt8.ofNat (byte.toNat % 16) = byte := by
  have bound := byte.toNat_lt
  apply UInt8.toNat_inj.mp
  simp only [UInt8.toNat_add, UInt8.toNat_mul, UInt8.toNat_ofNat', UInt8.reduceToNat]
  omega

namespace Reader

-- What the reader holds of a packet that has not ended.
def buffered : Reader → Array UInt8
  | .payload body _ | .escaped body _ | .checksum body _ | .checksumLow body _ _ => body
  | .idle | .overlong | .overlongChecksum _ => #[]

-- The events of one chunk after the other.
def feedAll (reader : Reader) : List (List UInt8) → Reader × List Event
  | [] => (reader, [])
  | chunk :: rest =>
    (((reader.feed chunk).1.feedAll rest).1, (reader.feed chunk).2 ++ ((reader.feed chunk).1.feedAll rest).2)

theorem feedAll_flatten (reader : Reader) (chunks : List (List UInt8)) :
    reader.feedAll chunks = reader.feed chunks.flatten := by
  induction chunks generalizing reader with
  | nil => rfl
  | cons chunk rest same => simp [feedAll, feed_append, same]

section Body

variable {body : Array UInt8} (sum : UInt8)

theorem extend_fits (room : body.size < maxSize) (byte : UInt8) :
    extend body sum byte = (.payload (body.push byte) sum, none) :=
  if_pos room

theorem extend_overlong (full : ¬ body.size < maxSize) (byte : UInt8) :
    extend body sum byte = (.overlong, some .corrupted) :=
  if_neg full

theorem feed_escapeByte (body : Array UInt8) (byte : UInt8) :
    (Reader.payload body sum).feed (escapeByte byte) =
      ((extend body (summed sum (escapeByte byte)) byte).1, (extend body (summed sum (escapeByte byte)) byte).2.toList) := by
  by_cases escaped : needsEscape byte
  · have marked : escape ≠ stop := by decide
    have back : byte ^^^ escapeMask ^^^ escapeMask = byte := by
      rw [UInt8.xor_assoc, UInt8.xor_self, UInt8.xor_zero]
    simp [escapeByte, escaped, feed, push, marked, back, summed]
  · have plain : byte ≠ stop ∧ byte ≠ escape := by
      constructor <;> rintro rfl <;> exact escaped rfl
    simp [escapeByte, escaped, feed, push, plain, summed]

theorem feed_overlong (bytes : List UInt8) (unended : ∀ byte ∈ bytes, byte ≠ stop) :
    Reader.overlong.feed bytes = (.overlong, []) := by
  induction bytes with
  | nil => rfl
  | cons byte rest same =>
    have inside : byte ≠ stop := unended byte List.mem_cons_self
    have rest := same fun other member => unended other (List.mem_cons_of_mem _ member)
    simp [feed, push, inside, rest]

-- Induction on the payload, with the bytes that came before it in the buffer. The first byte that
-- does not fit is reported, and the rest is passed over.
theorem feed_payload (payload : List UInt8) (bounded : body.size ≤ maxSize) :
    (Reader.payload body sum).feed (payload.flatMap escapeByte) =
      if body.size + payload.length ≤ maxSize then
        (.payload (body ++ payload.toArray) (summed sum (payload.flatMap escapeByte)), [])
      else (.overlong, [.corrupted]) := by
  induction payload generalizing body sum with
  | nil => simp [feed, summed, bounded]
  | cons byte rest same =>
    rw [List.flatMap_cons, feed_append, feed_escapeByte]
    by_cases room : body.size < maxSize
    · have more : (body.push byte).size ≤ maxSize := by
        rw [Array.size_push]
        omega
      have length : (body.push byte).size + rest.length = body.size + (byte :: rest).length := by
        rw [Array.size_push, List.length_cons]
        omega
      rw [extend_fits _ room, same _ more, length, summed_append]
      by_cases fits : body.size + (byte :: rest).length ≤ maxSize <;> simp
    · have long : ¬ body.size + (byte :: rest).length ≤ maxSize := by
        rw [List.length_cons]
        omega
      have passed : Reader.overlong.feed (rest.flatMap escapeByte) = (.overlong, []) := by
        apply feed_overlong
        intro shown member
        obtain ⟨inner, _, within⟩ := List.mem_flatMap.mp member
        exact escapeByte_ne_stop inner shown within
      rw [extend_overlong _ room, if_neg long]
      simp [passed]

theorem feed_checksum (body : Array UInt8) :
    (Reader.payload body sum).feed (stop :: (Hex.byte sum).map fun char => UInt8.ofNat char.toNat) =
      (.idle, [.packet body.toList]) := by
  have digits := nibbles sum
  simp [feed, push, Hex.byte, digitValue_digit, digits]

theorem feed_passed (a b : UInt8) : Reader.overlong.feed [stop, a, b] = (.idle, []) := by
  simp [feed, push]

end Body

theorem feed_frame (payload : List UInt8) : Reader.idle.feed (frame payload) = (.idle, [received payload]) := by
  have opened : Reader.idle.push Packet.start = (.payload #[] 0, none) := rfl
  have empty : (#[] : Array UInt8).size ≤ maxSize := Nat.zero_le _
  have body := feed_payload 0 payload empty
  rw [frame_eq, feed, opened]
  simp only [feed_append, body, Array.size_empty, Nat.zero_add, Array.empty_append, received]
  by_cases fits : payload.length ≤ maxSize
  · simp [if_pos fits, feed_checksum]
  · have passed := feed_passed
    simp [if_neg fits, Hex.byte, passed]

theorem feed_frames (payloads : List (List UInt8)) :
    Reader.idle.feed (payloads.flatMap frame) = (.idle, payloads.map received) := by
  induction payloads with
  | nil => rfl
  | cons payload rest same => simp [feed_append, feed_frame, same]

theorem extend_bounded (body : Array UInt8) (sum byte : UInt8) :
    (extend body sum byte).1.buffered.size ≤ maxSize := by
  by_cases room : body.size < maxSize
  · rw [extend_fits sum room]
    simp only [buffered, Array.size_push]
    omega
  · rw [extend_overlong sum room]
    exact Nat.zero_le _

theorem push_bounded {reader : Reader} (bounded : reader.buffered.size ≤ maxSize) (byte : UInt8) :
    (reader.push byte).1.buffered.size ≤ maxSize := by
  cases reader with
  | idle =>
    simp only [push, start]
    repeat' split
    all_goals exact Nat.zero_le _
  | payload body sum =>
    simp only [push]
    split
    · exact bounded
    · split
      · exact bounded
      · exact extend_bounded body _ _
  | escaped body sum => exact extend_bounded body _ _
  | checksum body sum =>
    simp only [push]
    split
    · exact bounded
    · exact Nat.zero_le _
  | checksumLow body sum high =>
    simp only [push]
    repeat' split
    all_goals exact Nat.zero_le _
  | overlong =>
    simp only [push]
    split <;> exact Nat.zero_le _
  | overlongChecksum left =>
    simp only [push]
    split <;> exact Nat.zero_le _

theorem feed_bounded {reader : Reader} (bounded : reader.buffered.size ≤ maxSize) (bytes : List UInt8) :
    (reader.feed bytes).1.buffered.size ≤ maxSize := by
  induction bytes generalizing reader with
  | nil => exact bounded
  | cons byte rest same => exact same (push_bounded bounded byte)

/-- However the frames of some payloads are cut into chunks, an idle reader reports each payload once
and in order, as it was or as too long, and is idle again; and whatever comes in, the reader holds no
more of it than a payload may have. -/
theorem feedAll_frames {payloads chunks : List (List UInt8)} (cut : chunks.flatten = payloads.flatMap frame) :
    Reader.idle.feedAll chunks = (.idle, payloads.map received) ∧
      ∀ bytes, (Reader.idle.feed bytes).1.buffered.size ≤ maxSize := by
  refine ⟨?_, fun bytes => feed_bounded (Nat.zero_le _) bytes⟩
  rw [feedAll_flatten, cut, feed_frames]

def straddling : List UInt8 :=
  List.replicate maxSize 0x61 ++ [escape]

theorem straddling_received : received straddling = .corrupted := by
  have long : ¬ straddling.length ≤ maxSize := by simp [straddling]
  exact if_neg long

def straddled : List (List UInt8) :=
  [(frame straddling).take (maxSize + 2), (frame straddling).drop (maxSize + 2), frame [0x67]]

theorem feedAll_frames_straddling :
    straddled.flatten = [straddling, [0x67]].flatMap frame ∧
      Reader.idle.feedAll straddled = (.idle, [.corrupted, .packet [0x67]]) := by
  have cut : straddled.flatten = [straddling, [0x67]].flatMap frame := by
    simp only [straddled, List.flatten_cons, List.flatten_nil, List.flatMap_cons, List.flatMap_nil, ← List.append_assoc,
      List.take_append_drop]
  have short : received [0x67] = .packet [0x67] := rfl
  refine ⟨cut, ?_⟩
  rw [(feedAll_frames cut).1, List.map_cons, List.map_cons, List.map_nil, straddling_received, short]

end Reader

end RvBoard.Debug.Packet
