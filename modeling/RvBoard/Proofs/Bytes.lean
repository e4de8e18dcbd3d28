import RvBoard.Bytes
import RvBoard.Proofs.Bits

/-!
# Words in byte blocks

A word in a block is its bytes, lowest first, and a word or a run of bytes that is put into a block
changes those bytes only.
-/

set_option autoImplicit false

namespace RvBoard.Bytes

def byteAt (value : UInt64) : Nat → UInt8
  | 0 => value.toUInt8
  | k + 1 => byteAt (value >>> 8) k

theorem byteAt_zero_word (k : Nat) : byteAt 0 k = 0 := by
  induction k with
  | zero => rfl
  | succ k ih => simpa [byteAt] using ih

theorem byteAt_or (a b : UInt64) (k : Nat) : byteAt (a ||| b) k = byteAt a k ||| byteAt b k := by
  induction k generalizing a b with
  | zero => exact UInt64.toUInt8_or a b
  | succ k ih => rw [byteAt, UInt64.shiftRight_or, ih, byteAt, byteAt]

theorem byteAt_small (value : UInt64) (k : Nat) (small : value >>> 8 = 0) :
    byteAt value k = if k = 0 then value.toUInt8 else 0 := by
  cases k with
  | zero => rfl
  | succ k => rw [byteAt, small, byteAt_zero_word, if_neg (Nat.succ_ne_zero k)]

theorem bit_byteAt (value : UInt64) (k i : Nat) (inside : i < 8) :
    (byteAt value k).toBitVec.getLsbD i = value.toBitVec.getLsbD (8 * k + i) := by
  induction k generalizing value with
  | zero => simp [byteAt, inside]
  | succ k ih =>
    rw [byteAt, ih]
    simp only [UInt64.toBitVec_shiftRight, UInt64.toBitVec_ofNat, BitVec.ushiftRight_eq', BitVec.getLsbD_ushiftRight]
    congr 1
    change 8 + (8 * k + i) = 8 * (k + 1) + i
    omega

theorem bit_wordAt (block : ByteArray) (offset n i : Nat) (inside : i < 64) :
    (wordAt block offset n).toBitVec.getLsbD i =
      (decide (i < 8 * n) && (block.get! (offset + i / 8)).toBitVec.getLsbD (i % 8)) := by
  induction n generalizing offset i with
  | zero => simp [wordAt]
  | succ n ih =>
    have shift : ∀ x : UInt64, (x <<< 8).toBitVec.getLsbD i = (decide (8 ≤ i) && x.toBitVec.getLsbD (i - 8)) := by
      intro x
      have amount : (8 : UInt64).toBitVec.toNat % 64 = 8 := rfl
      have above : (!decide (i < 8)) = decide (8 ≤ i) := by
        rw [← decide_not]
        exact decide_eq_decide.mpr Nat.not_lt
      rw [UInt64.toBitVec_shiftLeft, BitVec.shiftLeft_eq', BitVec.getLsbD_shiftLeft]
      change (decide (i < 64) && !decide (i < 8) && x.toBitVec.getLsbD (i - 8)) = _
      rw [above]
      simp [inside]
    rw [wordAt, UInt64.toBitVec_or, BitVec.getLsbD_or, shift]
    by_cases low : i < 8
    · have first : i / 8 = 0 := Nat.div_eq_of_lt low
      have same : i % 8 = i := Nat.mod_eq_of_lt low
      have bound : i < 8 * (n + 1) := by omega
      have notAbove : ¬ 8 ≤ i := by omega
      simp [first, same, bound, notAbove, inside]
    · have above : 8 ≤ i := by omega
      have next : offset + 1 + (i - 8) / 8 = offset + i / 8 := by omega
      have same : (i - 8) % 8 = i % 8 := by omega
      have bound : (i - 8 < 8 * n) = (i < 8 * (n + 1)) := by
        apply propext
        omega
      rw [ih (offset + 1) (i - 8) (by omega), next, same]
      have out : (block.get! offset).toUInt64.toBitVec.getLsbD i = false := by
        rw [UInt8.toBitVec_toUInt64, BitVec.getLsbD_setWidth, BitVec.getLsbD_of_ge _ _ above, Bool.and_false]
      rw [out, Bool.false_or, decide_eq_true above, Bool.true_and]
      simp only [bound]

theorem byteAt_wordAt (block : ByteArray) (offset n k : Nat) (inside : k < n) (word : n ≤ 8) :
    byteAt (wordAt block offset n) k = block.get! (offset + k) := by
  apply byte_eq_of_bits
  intro i bit
  rw [bit_byteAt _ k i bit, bit_wordAt block offset n (8 * k + i) (by omega)]
  have place : (8 * k + i) / 8 = k := by omega
  have rest : (8 * k + i) % 8 = i := by omega
  have bound : 8 * k + i < 8 * n := by omega
  simp [place, rest, bound]

theorem wordAt_congr (a b : ByteArray) (i j n : Nat) (same : ∀ k, k < n → a.get! (i + k) = b.get! (j + k)) :
    wordAt a i n = wordAt b j n := by
  induction n generalizing i j with
  | zero => rfl
  | succ n ih =>
    rw [wordAt, wordAt]
    have first : a.get! i = b.get! j := same 0 (Nat.succ_pos n)
    have rest : wordAt a (i + 1) n = wordAt b (j + 1) n := by
      apply ih
      intro k inside
      have shifted := same (k + 1) (Nat.succ_lt_succ inside)
      simpa only [Nat.add_assoc, Nat.add_comm 1 k] using shifted
    rw [first, rest]

theorem get_set (block : ByteArray) (i j : Nat) (byte : UInt8) (inside : i < block.size) :
    (block.set! i byte).get! j = if i = j then byte else block.get! j := by
  obtain ⟨data⟩ := block
  have bound : i < data.size := inside
  change (data.setIfInBounds i byte)[j]! = if i = j then byte else data[j]!
  rw [getElem!_def, getElem!_def, Array.getElem?_setIfInBounds]
  by_cases same : i = j
  · rw [if_pos same, if_pos same, if_pos bound]
  · rw [if_neg same, if_neg same]

theorem get_putWord (block : ByteArray) (offset n j : Nat) (value : UInt64) (fits : offset + n ≤ block.size) :
    (putWord block offset n value).get! j =
      if offset ≤ j ∧ j < offset + n then byteAt value (j - offset) else block.get! j := by
  induction n generalizing block offset value with
  | zero =>
    have outside : ¬ (offset ≤ j ∧ j < offset + 0) := by omega
    rw [putWord, if_neg outside]
  | succ n ih =>
    have kept : (block.set! offset value.toUInt8).size = block.size := Array.size_setIfInBounds
    rw [putWord, ih _ _ _ (by omega), get_set block offset j _ (by omega)]
    by_cases here : offset = j
    · subst here
      have outside : ¬ (offset + 1 ≤ offset ∧ offset < offset + 1 + n) := by omega
      have inside : offset ≤ offset ∧ offset < offset + (n + 1) := by omega
      rw [if_neg outside, if_pos rfl, if_pos inside, Nat.sub_self, byteAt]
    · by_cases later : offset + 1 ≤ j ∧ j < offset + 1 + n
      · have inside : offset ≤ j ∧ j < offset + (n + 1) := by omega
        have position : j - offset = (j - (offset + 1)) + 1 := by omega
        rw [if_pos later, if_pos inside, position, byteAt]
      · have outside : ¬ (offset ≤ j ∧ j < offset + (n + 1)) := by omega
        rw [if_neg later, if_neg here, if_neg outside]

theorem bit_small {value : UInt64} {n i : Nat} (small : value.toNat < 2 ^ (8 * n)) (above : 8 * n ≤ i) :
    value.toBitVec.getLsbD i = false := by
  apply Nat.testBit_lt_two_pow
  exact Nat.lt_of_lt_of_le small (Nat.pow_le_pow_right (by decide) above)

theorem wordAt_putWord_small (block : ByteArray) (offset n : Nat) (value : UInt64) (fits : offset + n ≤ block.size)
    (small : value.toNat < 2 ^ (8 * n)) : wordAt (putWord block offset n value) offset n = value := by
  apply word_eq_of_bits
  intro i inside
  rw [bit_wordAt _ offset n i inside]
  by_cases low : i < 8 * n
  · have covered : offset ≤ offset + i / 8 ∧ offset + i / 8 < offset + n := by omega
    rw [get_putWord block offset n _ value fits, if_pos covered, Nat.add_sub_cancel_left,
      bit_byteAt value (i / 8) (i % 8) (by omega), Nat.div_add_mod, decide_eq_true low, Bool.true_and]
  · rw [decide_eq_false low, Bool.false_and, bit_small small (Nat.not_lt.mp low)]

theorem wordAt_putWord (block : ByteArray) (offset : Nat) (value : UInt64) (fits : offset + 8 ≤ block.size) :
    wordAt (putWord block offset 8 value) offset 8 = value :=
  wordAt_putWord_small block offset 8 value fits value.toNat_lt

theorem wordAt_low {block : ByteArray} {offset m n : Nat} {value : UInt64} (shorter : m ≤ n)
    (whole : wordAt block offset n = value) (small : value.toNat < 2 ^ (8 * m)) : wordAt block offset m = value := by
  apply word_eq_of_bits
  intro i inside
  rw [bit_wordAt block offset m i inside]
  by_cases low : i < 8 * m
  · have bit := bit_wordAt block offset n i inside
    have lower : i < 8 * n := by omega
    rw [whole, decide_eq_true lower] at bit
    rw [bit, decide_eq_true low]
  · rw [decide_eq_false low, Bool.false_and, bit_small small (Nat.not_lt.mp low)]

theorem wordAt_putWord_apart (block : ByteArray) (offset n other m : Nat) (value : UInt64)
    (fits : offset + n ≤ block.size) (apart : other + m ≤ offset ∨ offset + n ≤ other) :
    wordAt (putWord block offset n value) other m = wordAt block other m := by
  apply wordAt_congr
  intro k inside
  have outside : ¬ (offset ≤ other + k ∧ other + k < offset + n) := by omega
  rw [get_putWord block offset n (other + k) value fits, if_neg outside]

theorem data_splice (block : ByteArray) (offset : Nat) (bytes : ByteArray) :
    (splice block offset bytes).data =
      block.data.extract 0 offset ++ bytes.data ++ block.data.extract (offset + bytes.size) block.data.size := by
  unfold splice ByteArray.copySlice
  have all : bytes.data.extract 0 (0 + bytes.size) = bytes.data := by
    rw [Nat.zero_add]
    exact Array.extract_size
  simp only [all]
  congr 2
  have same : bytes.data.size = bytes.size := rfl
  omega

theorem size_splice (block : ByteArray) (offset : Nat) (bytes : ByteArray) (fits : offset + bytes.size ≤ block.size) :
    (splice block offset bytes).size = block.size := by
  change (splice block offset bytes).data.size = block.data.size
  have same : bytes.data.size = bytes.size := rfl
  have whole : block.data.size = block.size := rfl
  rw [data_splice block offset bytes]
  simp only [Array.size_append, Array.size_extract]
  omega

theorem get_splice_apart (block : ByteArray) (offset i : Nat) (bytes : ByteArray) (fits : offset + bytes.size ≤ block.size)
    (apart : i < offset ∨ offset + bytes.size ≤ i) : (splice block offset bytes).get! i = block.get! i := by
  have same : bytes.data.size = bytes.size := rfl
  have whole : block.data.size = block.size := rfl
  change (splice block offset bytes).data[i]! = block.data[i]!
  rw [data_splice block offset bytes, getElem!_def, getElem!_def]
  congr 1
  rcases apart with below | above
  · have front : i < (block.data.extract 0 offset).size := by
      rw [Array.size_extract]
      omega
    have first : i < (block.data.extract 0 offset ++ bytes.data).size := by
      rw [Array.size_append]
      omega
    rw [Array.getElem?_append_left first, Array.getElem?_append_left front, Array.getElem?_extract, if_pos (by omega),
      Nat.zero_add]
  · have size : (block.data.extract 0 offset ++ bytes.data).size = offset + bytes.size := by
      rw [Array.size_append, Array.size_extract]
      omega
    rw [Array.getElem?_append_right (by omega), size, Array.getElem?_extract]
    have place : offset + bytes.size + (i - (offset + bytes.size)) = i := by omega
    rw [place]
    by_cases inside : i < block.data.size
    · rw [if_pos (by omega)]
    · rw [if_neg (by omega), Array.getElem?_eq_none (by omega)]

theorem slice_congr (a b : ByteArray) (offset n : Nat) (size : a.size = b.size)
    (same : ∀ i, offset ≤ i → i < offset + n → a.get! i = b.get! i) : slice? a offset n = slice? b offset n := by
  have held : holds a offset n = holds b offset n := by
    unfold holds
    rw [size]
  unfold slice?
  rw [held]
  by_cases inside : holds b offset n = true
  · have fits : offset + n ≤ b.size := of_decide_eq_true inside
    rw [if_pos inside, if_pos inside]
    congr 1
    apply ByteArray.ext
    rw [ByteArray.data_extract, ByteArray.data_extract]
    apply Array.ext_getElem?
    intro i
    rw [Array.getElem?_extract, Array.getElem?_extract]
    have whole : a.data.size = b.data.size := size
    rw [whole]
    by_cases small : i < min (offset + n) b.data.size - offset
    · rw [if_pos small, if_pos small]
      have byte := same (offset + i) (by omega) (by omega)
      have bound : b.data.size = b.size := rfl
      change a.data[offset + i]! = b.data[offset + i]! at byte
      rw [getElem!_pos a.data _ (by omega), getElem!_pos b.data _ (by omega)] at byte
      rw [Array.getElem?_eq_getElem (by omega), Array.getElem?_eq_getElem (by omega), byte]
    · rw [if_neg small, if_neg small]
  · rw [if_neg inside, if_neg inside]

-- The bytes of a block as a list.
def listOf (block : ByteArray) : List UInt8 :=
  block.data.toList

theorem listOf_injective {a b : ByteArray} (same : listOf a = listOf b) : a = b :=
  ByteArray.ext (Array.toList_inj.mp same)

theorem length_listOf (block : ByteArray) : (listOf block).length = block.size :=
  Array.length_toList

theorem toList_loop (bytes : ByteArray) (i : Nat) (front : List UInt8) :
    ByteArray.toList.loop bytes i front = front.reverse ++ (listOf bytes).drop i := by
  fun_induction ByteArray.toList.loop bytes i front with
  | case1 i front inside ih =>
    have bound : i < bytes.data.size := inside
    have here : i < (listOf bytes).length := by rwa [length_listOf]
    have byte : bytes.get! i = (listOf bytes)[i] := getElem!_pos bytes.data i bound
    have first : (listOf bytes).drop i = bytes.get! i :: (listOf bytes).drop (i + 1) := by
      rw [byte, List.drop_eq_getElem_cons here]
    rw [ih, first, List.reverse_cons, List.append_assoc]
    rfl
  | case2 i front outside =>
    rw [List.drop_eq_nil_of_le (by rw [length_listOf]; omega), List.append_nil]

theorem toList_eq (bytes : ByteArray) : bytes.toList = listOf bytes :=
  toList_loop bytes 0 []

theorem length_toList (bytes : ByteArray) : bytes.toList.length = bytes.size := by
  rw [toList_eq, length_listOf]

theorem toList_doubled (byte : UInt8) (n : Nat) (block : ByteArray) (k : Nat)
    (equal : block.data.toList = List.replicate k byte) :
    (doubled block n).data.toList = List.replicate (k <<< n) byte := by
  induction n generalizing block k with
  | zero => exact equal
  | succ n same =>
    have twice : (block ++ block).data.toList = List.replicate (k + k) byte := by
      rw [ByteArray.data_append, Array.toList_append, equal, List.replicate_append_replicate]
    rw [doubled, same _ _ twice, ← Nat.two_mul, Nat.shiftLeft_succ_inside]

theorem listOf_zeros (n : Nat) : listOf (zeros n) = List.replicate n 0 := by
  change (zeros n).data.toList = _
  by_cases empty : n = 0
  · subst empty
    rfl
  · have below : 2 ^ Nat.log2 n ≤ n := Nat.log2_self_le empty
    have above : n < 2 ^ (Nat.log2 n + 1) := Nat.lt_log2_self
    have half := toList_doubled 0 (Nat.log2 n) ⟨#[0]⟩ 1 rfl
    rw [Nat.one_shiftLeft] at half
    have size : (doubled ⟨#[0]⟩ (Nat.log2 n)).size = 2 ^ Nat.log2 n := by
      change (doubled ⟨#[0]⟩ (Nat.log2 n)).data.size = _
      rw [← Array.length_toList, half, List.length_replicate]
    rw [Nat.pow_succ] at above
    rw [zeros, replicate, if_neg empty]
    simp only [ByteArray.data_append, ByteArray.data_extract, Array.toList_append, Array.toList_extract, half, size,
      List.extract_eq_take_drop, List.drop_zero, List.take_replicate, List.replicate_append_replicate]
    congr 1
    omega

theorem ofList_toList (bytes : ByteArray) : ofList bytes.toList = bytes := by
  rw [toList_eq]
  rfl

theorem toList_ofList (bytes : List UInt8) : (ofList bytes).toList = bytes := by
  rw [toList_eq]
  rfl

theorem fromUTF8_toUTF8 (name : String) : String.fromUTF8? name.toUTF8 = some name := by
  unfold String.fromUTF8?
  rw [String.toUTF8_eq_toByteArray, dif_pos name.isValidUTF8]
  rfl

theorem toUTF8_fromUTF8 {bytes : ByteArray} {text : String} (valid : String.fromUTF8? bytes = some text) :
    text.toUTF8 = bytes := by
  unfold String.fromUTF8? at valid
  split at valid
  · cases valid
    rfl
  · cases valid

theorem toNat_cons (byte : UInt8) {rest : UInt64} (small : rest.toNat < 2 ^ 56) :
    (byte.toUInt64 ||| (rest <<< 8)).toNat = byte.toNat + 256 * rest.toNat := by
  have shifted : (rest <<< 8).toNat = 2 ^ 8 * rest.toNat := by
    simp only [UInt64.toNat_shiftLeft, UInt64.reduceToNat, Nat.reduceMod, Nat.shiftLeft_eq]
    omega
  have apart := Nat.two_pow_add_eq_or_of_lt (i := 8) byte.toNat_lt rest.toNat
  rw [UInt64.toNat_or, shifted, UInt8.toNat_toUInt64, Nat.or_comm, ← apart]
  omega

theorem ofLittleEndian_lt {bytes : List UInt8} (short : bytes.length ≤ 8) :
    (ofLittleEndian bytes).toNat < 256 ^ bytes.length := by
  induction bytes with
  | nil => decide
  | cons byte rest ih =>
    rw [List.length_cons] at short
    have below := ih (by omega)
    have small : 256 ^ rest.length ≤ 256 ^ 7 := Nat.pow_le_pow_right (by decide) (by omega)
    rw [ofLittleEndian, toNat_cons byte (by omega), List.length_cons, Nat.pow_succ]
    have bound := byte.toNat_lt
    omega

theorem littleEndian_ofLittleEndian {bytes : List UInt8} (short : bytes.length ≤ 8) :
    littleEndian bytes.length (ofLittleEndian bytes) = bytes := by
  induction bytes with
  | nil => rfl
  | cons byte rest ih =>
    rw [List.length_cons] at short
    have below : (ofLittleEndian rest).toNat < 256 ^ rest.length := ofLittleEndian_lt (by omega)
    have small : 256 ^ rest.length ≤ 256 ^ 7 := Nat.pow_le_pow_right (by decide) (by omega)
    have whole := @toNat_cons byte (ofLittleEndian rest) (by omega)
    have bound := byte.toNat_lt
    have first : (ofLittleEndian (byte :: rest)).toUInt8 = byte := by
      apply UInt8.toNat_inj.mp
      rw [UInt64.toNat_toUInt8, ofLittleEndian, whole]
      omega
    have others : ofLittleEndian (byte :: rest) >>> 8 = ofLittleEndian rest := by
      apply UInt64.toNat_inj.mp
      rw [UInt64.toNat_shiftRight, ofLittleEndian, whole, Nat.shiftRight_eq_div_pow]
      change (byte.toNat + 256 * (ofLittleEndian rest).toNat) / 256 = _
      omega
    rw [List.length_cons, littleEndian, first, others, ih (by omega)]

theorem ofLittleEndian_littleEndian {n : Nat} {value : UInt64} (short : n ≤ 8) (small : value.toNat < 256 ^ n) :
    ofLittleEndian (littleEndian n value) = value := by
  induction n generalizing value with
  | zero =>
    apply UInt64.toNat_inj.mp
    change 0 = value.toNat
    omega
  | succ n ih =>
    have high : (value >>> 8).toNat = value.toNat / 256 := by
      rw [UInt64.toNat_shiftRight, Nat.shiftRight_eq_div_pow]
      rfl
    have whole := value.toNat_lt
    rw [Nat.pow_succ] at small
    rw [littleEndian, ofLittleEndian, ih (by omega) (by omega)]
    apply UInt64.toNat_inj.mp
    rw [toNat_cons _ (by omega), high, UInt64.toNat_toUInt8]
    omega

theorem listOf_append (a b : ByteArray) : listOf (a ++ b) = listOf a ++ listOf b := by
  rw [listOf, ByteArray.data_append, Array.toList_append]
  rfl

theorem listOf_extract (block : ByteArray) (start stop : Nat) :
    listOf (block.extract start stop) = ((listOf block).drop start).take (stop - start) := by
  rw [listOf, ByteArray.data_extract, Array.toList_extract]
  rfl

theorem wordAt_listOf (block : ByteArray) {offset n : Nat} (fits : offset + n ≤ block.size) :
    wordAt block offset n = ofLittleEndian (((listOf block).drop offset).take n) := by
  induction n generalizing offset with
  | zero => simp [wordAt, ofLittleEndian]
  | succ n ih =>
    have inside : offset < (listOf block).length := by
      rw [length_listOf]
      omega
    have byte : block.get! offset = (listOf block)[offset] := getElem!_pos block.data offset inside
    rw [wordAt, ih (by omega), List.drop_eq_getElem_cons inside, List.take_succ_cons, ofLittleEndian, byte]

def overlay (old : List UInt8) (place : Nat) (new : List UInt8) : List UInt8 :=
  old.take place ++ new.take (old.length - place) ++ old.drop (place + new.length)

theorem overlay_nil (old : List UInt8) (place : Nat) : overlay old place [] = old := by
  simp [overlay]

theorem length_overlay (old new : List UInt8) (place : Nat) : (overlay old place new).length = old.length := by
  simp only [overlay, List.length_append, List.length_take, List.length_drop]
  omega

theorem overlay_behind (a b new : List UInt8) {place : Nat} (behind : a.length ≤ place) :
    overlay (a ++ b) place new = a ++ overlay b (place - a.length) new := by
  have early : a.drop (place + new.length) = [] := List.drop_eq_nil_of_le (by omega)
  have rest : place + new.length - a.length = place - a.length + new.length := by omega
  have room : (a ++ b).length - place = b.length - (place - a.length) := by
    rw [List.length_append]
    omega
  rw [overlay, overlay, List.take_append, List.take_of_length_le behind, List.drop_append, early, rest, room]
  simp

theorem overlay_across (a b new : List UInt8) {place : Nat} (inside : place ≤ a.length) :
    overlay (a ++ b) place new =
      overlay a place (new.take (a.length - place)) ++ overlay b 0 (new.drop (a.length - place)) := by
  have parts : (a ++ b).length - place = (a.length - place) + b.length := by
    rw [List.length_append]
    omega
  unfold overlay
  rw [parts, List.take_add, List.take_append_of_le_length inside, List.drop_append, List.take_take, Nat.min_self,
    List.length_take, List.length_drop, List.take_zero, Nat.sub_zero, Nat.zero_add, List.nil_append]
  rcases Nat.le_total new.length (a.length - place) with short | long
  · have none : new.drop (a.length - place) = [] := List.drop_eq_nil_of_le short
    have before : place + new.length - a.length = 0 := by omega
    have after : new.length - (a.length - place) = 0 := by omega
    rw [none, before, after, Nat.min_eq_right short]
    simp
  · have none : a.drop (place + new.length) = [] := List.drop_eq_nil_of_le (by omega)
    have whole : a.drop (place + min (a.length - place) new.length) = [] := List.drop_eq_nil_of_le (by omega)
    have rest : place + new.length - a.length = new.length - (a.length - place) := by omega
    rw [none, whole, rest]
    simp

theorem overlay_within (front middle rest new : List UInt8) {place : Nat} (inside : place + new.length ≤ middle.length) :
    overlay (front ++ (middle ++ rest)) (front.length + place) new = front ++ (overlay middle place new ++ rest) := by
  have short : new.length ≤ middle.length - place := by omega
  rw [overlay_behind _ _ _ (Nat.le_add_right ..), Nat.add_sub_cancel_left, overlay_across _ _ _ (by omega),
    List.take_of_length_le short, List.drop_eq_nil_of_le short, overlay_nil]

theorem overlay_part (block new : List UInt8) {start size place : Nat} (inside : place + new.length ≤ size)
    (fits : start + size ≤ block.length) :
    ((overlay block (start + place) new).drop start).take size = overlay ((block.drop start).take size) place new := by
  have parts : block = block.take start ++ ((block.drop start).take size ++ (block.drop start).drop size) := by
    rw [List.take_append_drop, List.take_append_drop]
  have front : (block.take start).length = start := by
    rw [List.length_take]
    omega
  have middle : ((block.drop start).take size).length = size := by
    rw [List.length_take, List.length_drop]
    omega
  have laid := overlay_within (block.take start) ((block.drop start).take size) ((block.drop start).drop size) new
    (show place + new.length ≤ _ by rw [middle]; exact inside)
  rw [front, ← parts] at laid
  rw [laid, List.drop_left' front, List.take_left' ((length_overlay _ _ _).trans middle)]

theorem overlay_shows (old new : List UInt8) {place : Nat} (fits : place + new.length ≤ old.length) :
    ((overlay old place new).drop place).take new.length = new := by
  have whole : ((old.drop place).take new.length).length = new.length := by
    rw [List.length_take, List.length_drop]
    omega
  have part : ((overlay old (place + 0) new).drop place).take new.length = overlay ((old.drop place).take new.length) 0 new :=
    overlay_part old new (Nat.le_of_eq (Nat.zero_add _)) fits
  rw [Nat.add_zero] at part
  rw [part, overlay, whole]
  simp

theorem listOf_splice (block : ByteArray) (offset : Nat) (bytes : ByteArray) (fits : offset + bytes.size ≤ block.size) :
    listOf (splice block offset bytes) = overlay (listOf block) offset (listOf bytes) := by
  have room : (listOf bytes).length ≤ (listOf block).length - offset := by
    rw [length_listOf, length_listOf]
    omega
  have rest : (block.data.toList.drop (offset + bytes.size)).length ≤ block.data.size - (offset + bytes.size) :=
    Nat.le_of_eq (by rw [List.length_drop, Array.length_toList])
  rw [overlay, List.take_of_length_le room, length_listOf]
  unfold listOf
  rw [data_splice, Array.toList_append, Array.toList_append, Array.toList_extract, Array.toList_extract, List.extract,
    List.extract, List.take_of_length_le rest, Nat.sub_zero, List.drop_zero]

end RvBoard.Bytes
