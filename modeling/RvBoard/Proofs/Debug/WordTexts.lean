import RvBoard.Debug.HexText
import RvBoard.Proofs.Bytes
import RvBoard.Proofs.Debug.Framing

/-!
# Words in packets

A word is spelled by sixteen digits: two for each byte, the lowest byte first and in each byte the higher digit first. A
row of words is spelled by their texts, one behind the other. Reading accepts just these texts, in either case of the
digits, and what is written is one of them.
-/

set_option autoImplicit false

namespace RvBoard.Debug

inductive Pairs : List UInt8 → Nat → Prop
  | nil : Pairs [] 0
  | cons {high low h l : UInt8} {rest : List UInt8} {n : Nat} (first : Hex.digitValue? high = some h)
      (second : Hex.digitValue? low = some l) (others : Pairs rest n) :
      Pairs (high :: low :: rest) (h.toNat * 16 + l.toNat + 256 * n)

def Spelled (text : List UInt8) (word : UInt64) : Prop :=
  text.length = 16 ∧ Pairs text word.toNat

/-- A row of words, each spelled in turn. -/
inductive Spells : List UInt8 → List UInt64 → Prop
  | nil : Spells [] []
  | cons {text rest : List UInt8} {word : UInt64} {words : List UInt64} (first : Spelled text word)
      (others : Spells rest words) : Spells (text ++ rest) (word :: words)

section Digits

theorem digitValue_lt {char value : UInt8} (digit : Hex.digitValue? char = some value) : value.toNat < 16 := by
  have all : ∀ char : Fin 256, ∀ value ∈ Hex.digitValue? (UInt8.ofNat char.val), value.toNat < 16 := by decide +kernel
  have this := all ⟨char.toNat, char.toNat_lt⟩ value
  rw [UInt8.ofNat_toNat] at this
  exact this digit

theorem toNat_pair {h l : UInt8} (high : h.toNat < 16) (low : l.toNat < 16) : (h * 16 + l).toNat = h.toNat * 16 + l.toNat := by
  simp only [UInt8.toNat_add, UInt8.toNat_mul, UInt8.reduceToNat]
  omega

theorem length_encodeBytes (block : List UInt8) : (encodeBytes block).length = 2 * block.length := by
  unfold encodeBytes Hex.bytes
  induction block with
  | nil => rfl
  | cons byte rest ih =>
    rw [List.flatMap_cons, List.map_append, List.length_append, ih, List.length_cons]
    change 2 + _ = _
    omega

theorem encodeBytes_pairs {block : List UInt8} (short : block.length ≤ 8) :
    Pairs (encodeBytes block) (Bytes.ofLittleEndian block).toNat := by
  induction block with
  | nil => exact .nil
  | cons byte rest ih =>
    rw [List.length_cons] at short
    have small : (Bytes.ofLittleEndian rest).toNat < 2 ^ 56 :=
      Nat.lt_of_lt_of_le (Bytes.ofLittleEndian_lt (by omega)) (Nat.pow_le_pow_right (by decide) (by omega : rest.length ≤ 7))
    have bound := byte.toNat_lt
    have split : (UInt8.ofNat (byte.toNat / 16 % 16)).toNat * 16 + (UInt8.ofNat (byte.toNat % 16)).toNat = byte.toNat := by
      simp only [UInt8.toNat_ofNat']
      omega
    rw [Bytes.ofLittleEndian, Bytes.toNat_cons byte small, ← split]
    exact .cons (Packet.digitValue_digit _) (Packet.digitValue_digit _) (ih (by omega))

end Digits

section Words

theorem decodeBytes_pairs {text block : List UInt8} (read : decodeBytes? text = some block) :
    text.length = 2 * block.length ∧ (block.length ≤ 8 → Pairs text (Bytes.ofLittleEndian block).toNat) := by
  induction text using decodeBytes?.induct generalizing block with
  | case1 =>
    cases read
    exact ⟨rfl, fun _ => .nil⟩
  | case2 => cases read
  | case3 high low rest ih =>
    unfold decodeBytes? at read
    simp only [Option.bind_eq_bind, Option.bind_eq_some_iff, Option.pure_def, Option.some.injEq] at read
    obtain ⟨h, first, l, second, others, later, rfl⟩ := read
    obtain ⟨length, pairs⟩ := ih later
    simp only [List.length_cons]
    refine ⟨by omega, fun short => ?_⟩
    have small : (Bytes.ofLittleEndian others).toNat < 2 ^ 56 :=
      Nat.lt_of_lt_of_le (Bytes.ofLittleEndian_lt (by omega)) (Nat.pow_le_pow_right (by decide) (by omega : others.length ≤ 7))
    rw [Bytes.ofLittleEndian, Bytes.toNat_cons _ small, toNat_pair (digitValue_lt first) (digitValue_lt second)]
    exact .cons first second (pairs (by omega))

theorem Pairs.decodes {text : List UInt8} {n : Nat} (pairs : Pairs text n) :
    ∃ block, decodeBytes? text = some block ∧ text.length = 2 * block.length ∧
      (block.length ≤ 8 → (Bytes.ofLittleEndian block).toNat = n) := by
  induction pairs with
  | nil => exact ⟨[], rfl, rfl, fun _ => rfl⟩
  | @cons high low h l rest n first second others ih =>
    obtain ⟨block, read, length, same⟩ := ih
    refine ⟨(h * 16 + l) :: block, ?_, ?_, fun short => ?_⟩
    · unfold decodeBytes?
      rw [first, second, read]
      rfl
    · simp only [List.length_cons]
      omega
    · rw [List.length_cons] at short
      have small : (Bytes.ofLittleEndian block).toNat < 2 ^ 56 :=
        Nat.lt_of_lt_of_le (Bytes.ofLittleEndian_lt (by omega)) (Nat.pow_le_pow_right (by decide) (by omega : block.length ≤ 7))
      rw [Bytes.ofLittleEndian, Bytes.toNat_cons _ small, same (by omega),
        toNat_pair (digitValue_lt first) (digitValue_lt second)]

theorem decodeWord_iff {text : List UInt8} {word : UInt64} : decodeWord? text = some word ↔ Spelled text word := by
  unfold decodeWord? Spelled
  simp only [Option.bind_eq_bind, Option.bind_eq_some_iff, Option.ite_none_right_eq_some, Option.some.injEq]
  constructor
  · rintro ⟨block, read, whole, rfl⟩
    obtain ⟨length, pairs⟩ := decodeBytes_pairs read
    exact ⟨by omega, pairs (Nat.le_of_eq whole)⟩
  · rintro ⟨length, pairs⟩
    obtain ⟨block, read, double, same⟩ := pairs.decodes
    exact ⟨block, read, by omega, UInt64.toNat_inj.mp (same (by omega))⟩

theorem encodeWord_spelled (word : UInt64) : Spelled (encodeWord word) word := by
  have length := Bytes.length_littleEndian 8 word
  have same : Bytes.ofLittleEndian (Bytes.littleEndian 8 word) = word :=
    Bytes.ofLittleEndian_littleEndian (Nat.le_refl 8) word.toNat_lt
  have pairs := encodeBytes_pairs (Nat.le_of_eq length)
  rw [same] at pairs
  refine ⟨?_, pairs⟩
  rw [encodeWord, length_encodeBytes, length]

end Words

section Rows

theorem encodeWords_spell (words : List UInt64) : Spells (words.flatMap encodeWord) words := by
  induction words with
  | nil => exact .nil
  | cons word rest ih => exact .cons (encodeWord_spelled word) ih

theorem wordTexts_cons {text : List UInt8} (some : text ≠ []) :
    wordTexts text = text.take 16 :: wordTexts (text.drop 16) := by
  rw [wordTexts, if_neg (by simpa using some)]

theorem wordTexts_append {text : List UInt8} (whole : text.length = 16) (rest : List UInt8) :
    wordTexts (text ++ rest) = text :: wordTexts rest := by
  have some : text ++ rest ≠ [] := by
    rintro none
    rw [List.append_eq_nil_iff.mp none |>.1] at whole
    cases whole
  rw [wordTexts_cons some, List.take_append_of_le_length (Nat.le_of_eq whole.symm), List.drop_append_of_le_length
    (Nat.le_of_eq whole.symm), List.take_of_length_le (Nat.le_of_eq whole), List.drop_of_length_le (Nat.le_of_eq whole),
    List.nil_append]

theorem Spells.read {text : List UInt8} {words : List UInt64} (spells : Spells text words) :
    (wordTexts text).mapM decodeWord? = some words := by
  induction spells with
  | nil =>
    rw [wordTexts]
    rfl
  | cons first others ih =>
    rw [wordTexts_append first.1, List.mapM_cons, decodeWord_iff.mpr first, ih]
    rfl

theorem spells_of_read {text : List UInt8} {words : List UInt64} (read : (wordTexts text).mapM decodeWord? = some words) :
    Spells text words := by
  induction length : text.length using Nat.strongRecOn generalizing text words with
  | ind n ih =>
    by_cases none : text = []
    · subst none
      rw [wordTexts] at read
      cases read
      exact .nil
    · rw [wordTexts_cons none, List.mapM_cons] at read
      simp only [Option.bind_eq_bind, Option.bind_eq_some_iff, Option.pure_def, Option.some.injEq] at read
      obtain ⟨word, first, others, later, rfl⟩ := read
      have shorter : (text.drop 16).length < n := by
        have some := List.length_pos_iff.mpr none
        rw [List.length_drop]
        omega
      have spells := Spells.cons (decodeWord_iff.mp first) (ih _ shorter later rfl)
      rw [List.take_append_drop] at spells
      exact spells

theorem wordTexts_iff {text : List UInt8} {words : List UInt64} :
    (wordTexts text).mapM decodeWord? = some words ↔ Spells text words :=
  ⟨spells_of_read, Spells.read⟩

theorem Spells.unique {text : List UInt8} {words others : List UInt64} (one : Spells text words) (two : Spells text others) :
    words = others :=
  Option.some.inj (one.read.symm.trans two.read)

end Rows

end RvBoard.Debug
