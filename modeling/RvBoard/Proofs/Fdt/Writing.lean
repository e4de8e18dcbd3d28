import RvBoard.Proofs.Bytes
import RvBoard.Proofs.Fdt.Reading

/-!
# Writing flattened device trees

Token by token, the structure block grows by what reads as the token, and the strings block only grows
behind the names that are already there.
-/

set_option autoImplicit false

namespace RvBoard

namespace Fdt

abbrev bytesOf (block : ByteArray) : List UInt8 :=
  block.data.toList

theorem length_bytesOf (block : ByteArray) : (bytesOf block).length = block.size := rfl

@[simp] theorem bytesOf_append (a b : ByteArray) : bytesOf (a ++ b) = bytesOf a ++ bytesOf b := by
  simp [bytesOf]

@[simp] theorem size_cell (value : UInt32) : (cell value).size = 4 :=
  Bytes.length_bigEndian 4 value.toUInt64

theorem word_cell (value : UInt32) (rest : List UInt8) :
    word? (bytesOf (cell value) ++ rest) = some (value.toNat, rest) := by
  have bound := value.toNat_lt
  have shown : bytesOf (cell value) = [(value.toUInt64 >>> 8 >>> 8 >>> 8).toUInt8, (value.toUInt64 >>> 8 >>> 8).toUInt8,
      (value.toUInt64 >>> 8).toUInt8, value.toUInt64.toUInt8] := rfl
  simp only [shown, List.cons_append, List.nil_append, word?, number, List.foldl_cons, List.foldl_nil, UInt64.toNat_toUInt8,
    UInt64.toNat_shiftRight, UInt32.toNat_toUInt64, UInt64.reduceToNat, Option.some.injEq, Prod.mk.injEq, and_true,
    Nat.shiftRight_eq_div_pow, Nat.reduceMod, Nat.reducePow]
  omega

theorem filled_zeros (value rest : List UInt8) :
    filled? value.length (value ++ List.replicate ((4 - value.length % 4) % 4) 0 ++ rest) = some (value, rest) := by
  have whole : (value.length + 3) / 4 * 4 = value.length + (4 - value.length % 4) % 4 := by omega
  have front : (value ++ List.replicate ((4 - value.length % 4) % 4) (0 : UInt8)).length =
      value.length + (4 - value.length % 4) % 4 := by simp
  have fits : value.length + (4 - value.length % 4) % 4 ≤
      (value ++ List.replicate ((4 - value.length % 4) % 4) (0 : UInt8) ++ rest).length := by
    rw [List.length_append, front]
    omega
  have zeros : (List.replicate ((4 - value.length % 4) % 4) (0 : UInt8)).all (· == 0) = true :=
    List.all_eq_true.mpr fun byte member => beq_iff_eq.mpr (List.eq_of_mem_replicate member)
  have behind : (value ++ (List.replicate ((4 - value.length % 4) % 4) (0 : UInt8) ++ rest)).drop
      (value.length + (4 - value.length % 4) % 4) = rest := by
    rw [← front, ← List.append_assoc, List.drop_left]
  simp only [filled?, whole]
  rw [← front, List.take_left, List.drop_left, front, if_pos (Bool.and_eq_true_iff.mpr ⟨decide_eq_true fits, zeros⟩),
    List.append_assoc, List.take_left, behind]

-- A name holds no zero character.
def Plain (name : String) : Prop :=
  '\x00' ∉ name.toList

theorem utf8EncodeChar_ne_zero {char : Char} (other : char ≠ '\x00') : ∀ byte ∈ String.utf8EncodeChar char, byte ≠ 0 := by
  have bound : char.val.toNat < 0x110000 := by
    have valid := char.valid
    unfold UInt32.isValidChar Nat.isValidChar at valid
    omega
  have positive : char.val.toNat ≠ 0 := fun zero => other (Char.ext (UInt32.toNat_inj.mp zero))
  intro byte member zero
  have value : byte.toNat = 0 := congrArg UInt8.toNat zero
  unfold String.utf8EncodeChar at member
  extract_lets code at member
  change code < 0x110000 at bound
  change code ≠ 0 at positive
  repeat' split at member
  all_goals
    simp only [List.mem_cons, List.not_mem_nil, or_false] at member
    rcases member with rfl | rfl | rfl | rfl <;> simp only [UInt8.toNat_ofNat'] at value <;> omega

theorem plain_bytes {name : String} (plain : Plain name) : ∀ byte ∈ bytesOf name.toUTF8, byte ≠ 0 := by
  intro byte member
  have shown : bytesOf name.toUTF8 = name.toList.flatMap String.utf8EncodeChar := by
    have whole : name.toUTF8 = name.toList.utf8Encode := by
      conv => lhs; rw [← String.ofList_toList (s := name)]
      rfl
    rw [whole]
    simp [List.utf8Encode]
  rw [shown] at member
  obtain ⟨char, inside, among⟩ := List.mem_flatMap.mp member
  exact utf8EncodeChar_ne_zero (fun same => plain (same ▸ inside)) byte among

theorem bytesOf_terminated (name : String) : bytesOf (terminated name) = bytesOf name.toUTF8 ++ [0] :=
  Array.toList_push

theorem untilNul_append {bytes name : List UInt8} (found : untilNul? bytes = some name) (more : List UInt8) :
    untilNul? (bytes ++ more) = some name := by
  unfold untilNul? at found ⊢
  extract_lets kept at found
  split at found
  · rename_i ends
    have same : kept = name := Option.some_inj.mp found
    subst same
    have same : (bytes ++ more).takeWhile (· != 0) = kept := by
      rw [List.takeWhile_append, if_neg (Nat.ne_of_lt ends)]
    have longer : kept.length < (bytes ++ more).length := by
      rw [List.length_append]
      omega
    simp only [same, if_pos longer]
  · cases found

def NamedAt (strings : List UInt8) (offset : Nat) (name : String) : Prop :=
  text? (strings.drop offset) = some name

theorem text_append {bytes : List UInt8} {name : String} (found : text? bytes = some name) (more : List UInt8) :
    text? (bytes ++ more) = some name := by
  obtain ⟨raw, ends, decoded⟩ := Option.bind_eq_some_iff.mp found
  exact Option.bind_eq_some_iff.mpr ⟨raw, untilNul_append ends more, decoded⟩

theorem text_terminated {name : String} (plain : Plain name) (rest : List UInt8) :
    text? (bytesOf (terminated name) ++ rest) = some name := by
  have kept : (bytesOf (terminated name)).takeWhile (· != 0) = bytesOf name.toUTF8 := by
    have all : ∀ byte ∈ bytesOf name.toUTF8, (byte != 0) = true :=
      fun byte member => bne_iff_ne.mpr (plain_bytes plain byte member)
    rw [bytesOf_terminated, List.takeWhile_append_of_pos all]
    simp
  have ends : untilNul? (bytesOf (terminated name)) = some (bytesOf name.toUTF8) := by
    simp only [untilNul?, kept]
    rw [bytesOf_terminated, if_pos (by simp)]
  refine text_append ?_ rest
  rw [text?, ends]
  exact Bytes.fromUTF8_toUTF8 name

theorem NamedAt.append {strings : List UInt8} {offset : Nat} {name : String} (named : NamedAt strings offset name)
    (more : List UInt8) : NamedAt (strings ++ more) offset name := by
  have inside : offset ≤ strings.length := by
    apply Nat.le_of_not_lt
    intro beyond
    unfold NamedAt at named
    rw [List.drop_eq_nil_of_le (Nat.le_of_lt beyond)] at named
    cases named
  unfold NamedAt
  rw [List.drop_append_of_le_length inside]
  exact text_append named more

structure Blocks.Sound (blocks : Blocks) : Prop where
  aligned : blocks.body.size % 4 = 0
  stored : ∀ name offset, blocks.offsets.lookup name = some offset →
    NamedAt (bytesOf blocks.strings) offset.toNat name

theorem Blocks.sound_empty : Blocks.Sound {} :=
  ⟨rfl, fun _ _ found => nomatch found⟩

theorem bytesOf_padded {before : ByteArray} (aligned : before.size % 4 = 0) (after : ByteArray) :
    bytesOf (padded (before ++ after)) =
      bytesOf before ++ (bytesOf after ++ List.replicate ((4 - (bytesOf after).length % 4) % 4) 0) := by
  have tail : (before.size + after.size) % 4 = after.size % 4 := by omega
  rw [padded, bytesOf_append, bytesOf_append, ByteArray.size_append, tail, length_bytesOf, List.append_assoc]
  congr 2
  exact Bytes.listOf_zeros _

theorem size_padded (block : ByteArray) : (padded block).size % 4 = 0 ∧ block.size ≤ (padded block).size := by
  rw [padded, ByteArray.size_append, Bytes.size_zeros]
  omega

theorem Blocks.intern_grows (blocks : Blocks) (name : String) :
    (blocks.intern name).2.body = blocks.body ∧
      ∃ more, bytesOf (blocks.intern name).2.strings = bytesOf blocks.strings ++ more := by
  unfold intern
  cases blocks.offsets.lookup name with
  | some offset => exact ⟨rfl, [], (List.append_nil _).symm⟩
  | none => exact ⟨rfl, _, bytesOf_append _ _⟩

theorem Blocks.intern_sound {blocks : Blocks} (sound : blocks.Sound) {name : String} (plain : Plain name)
    (small : (blocks.intern name).2.strings.size < UInt32.size) :
    (blocks.intern name).2.Sound ∧
      NamedAt (bytesOf (blocks.intern name).2.strings) (blocks.intern name).1.toNat name := by
  unfold intern at small ⊢
  cases found : blocks.offsets.lookup name with
  | some offset => exact ⟨sound, sound.stored name offset found⟩
  | none =>
    simp only [found, ByteArray.size_append] at small
    have place : (UInt32.ofNat blocks.strings.size).toNat = (bytesOf blocks.strings).length :=
      UInt32.toNat_ofNat_of_lt' (Nat.lt_of_le_of_lt (Nat.le_add_right _ _) small)
    have here : NamedAt (bytesOf (blocks.strings ++ terminated name)) (UInt32.ofNat blocks.strings.size).toNat name := by
      have read := text_terminated plain []
      rw [List.append_nil] at read
      rw [NamedAt, bytesOf_append, place, List.drop_left]
      exact read
    refine ⟨⟨sound.aligned, ?_⟩, here⟩
    intro other offset stored
    dsimp only at stored ⊢
    rw [List.lookup_cons] at stored
    by_cases same : other = name
    · subst same
      simp only [BEq.rfl, Option.some.injEq] at stored
      exact stored ▸ here
    · have different : (other == name) = false := beq_false_of_ne same
      simp only [different] at stored
      rw [bytesOf_append]
      exact (sound.stored other offset stored).append _

def Token.Plain : Token → Prop
  | .beginNode name | .property name _ => Fdt.Plain name
  | .endNode => True

instance (token : Token) : Decidable token.Plain :=
  match token with
  | .beginNode name | .property name _ => inferInstanceAs (Decidable ('\x00' ∉ name.toList))
  | .endNode => .isTrue trivial

structure Blocks.Grown (before after : Blocks) : Prop where
  body : before.body.size ≤ after.body.size
  strings : ∃ more, bytesOf after.strings = bytesOf before.strings ++ more

theorem Blocks.Grown.refl (blocks : Blocks) : blocks.Grown blocks :=
  ⟨Nat.le_refl _, [], (List.append_nil _).symm⟩

theorem Blocks.Grown.trans {a b c : Blocks} (first : a.Grown b) (second : b.Grown c) : a.Grown c := by
  obtain ⟨more, grown⟩ := first.strings
  obtain ⟨most, last⟩ := second.strings
  exact ⟨Nat.le_trans first.body second.body, more ++ most, by rw [last, grown, List.append_assoc]⟩

theorem Blocks.Grown.size {before after : Blocks} (grown : before.Grown after) :
    before.strings.size ≤ after.strings.size := by
  obtain ⟨more, same⟩ := grown.strings
  rw [← length_bytesOf, ← length_bytesOf, same, List.length_append]
  omega

theorem Blocks.add_grown (blocks : Blocks) (token : Token) : blocks.Grown (blocks.add token) := by
  cases token with
  | beginNode name =>
    have bound := (size_padded (blocks.body ++ cell beginNodeTag ++ terminated name)).2
    rw [ByteArray.size_append, ByteArray.size_append] at bound
    exact ⟨by simp only [add]; omega, [], (List.append_nil _).symm⟩
  | endNode => exact ⟨by simp only [add, ByteArray.size_append]; omega, [], (List.append_nil _).symm⟩
  | property name value =>
    obtain ⟨body, strings⟩ := blocks.intern_grows name
    refine ⟨?_, strings⟩
    simp only [add]
    refine Nat.le_trans ?_ (size_padded _).2
    simp only [ByteArray.size_append, body]
    omega

theorem Blocks.addAll_grown (tokens : List Token) (blocks : Blocks) : blocks.Grown (tokens.foldl add blocks) := by
  induction tokens generalizing blocks with
  | nil => exact .refl blocks
  | cons token rest same => exact (blocks.add_grown token).trans (same _)

-- A token has been written: what was added to the structure block reads as the token, whatever
-- follows and whatever names come behind those that are there.
structure Wrote (token : Token) (before after : Blocks) : Prop where
  sound : after.Sound
  shows : ∃ shown, bytesOf after.body = bytesOf before.body ++ shown ∧
    ∀ more rest, lexeme? (bytesOf after.strings ++ more) (shown ++ rest) = some (.token token, rest)

theorem lexeme_beginNode {name : String} (plain : Plain name) (strings rest : List UInt8) :
    lexeme? strings (bytesOf (cell beginNodeTag) ++ (bytesOf (terminated name) ++
      List.replicate ((4 - (bytesOf (terminated name)).length % 4) % 4) 0 ++ rest)) = some (.token (.beginNode name), rest) := by
  have tag : beginNodeTag.toNat = 1 := rfl
  have length : name.utf8ByteSize + 1 = (bytesOf (terminated name)).length := by
    rw [bytesOf_terminated, List.length_append]
    rfl
  have named := text_terminated plain (List.replicate ((4 - (bytesOf (terminated name)).length % 4) % 4) 0 ++ rest)
  rw [← List.append_assoc] at named
  have filled := filled_zeros (bytesOf (terminated name)) rest
  simp only [lexeme?, word_cell, tag, Option.bind_eq_bind, Option.bind_some, named, length, filled]
  rfl

theorem lexeme_property {strings : List UInt8} {offset : UInt32} {name : String} (named : NamedAt strings offset.toNat name)
    (value : ByteArray) (small : value.size < UInt32.size) (rest : List UInt8) :
    lexeme? strings (bytesOf (cell propertyTag) ++ (bytesOf (cell (UInt32.ofNat value.size)) ++ (bytesOf (cell offset) ++
      (bytesOf value ++ List.replicate ((4 - (bytesOf value).length % 4) % 4) 0 ++ rest)))) =
        some (.token (.property name value), rest) := by
  have tag : propertyTag.toNat = 3 := rfl
  have size : (UInt32.ofNat value.size).toNat = (bytesOf value).length := UInt32.toNat_ofNat_of_lt' small
  have filled := filled_zeros (bytesOf value) rest
  unfold NamedAt at named
  simp only [lexeme?, word_cell, tag, Option.bind_eq_bind, Option.bind_some, named, size, filled]
  rfl

theorem Blocks.add_wrote {blocks : Blocks} (sound : blocks.Sound) {token : Token} (plain : token.Plain)
    (bodySmall : (blocks.add token).body.size < UInt32.size) (stringsSmall : (blocks.add token).strings.size < UInt32.size) :
    Wrote token blocks (blocks.add token) := by
  have aligned := sound.aligned
  cases token with
  | beginNode name =>
    have start : (blocks.body ++ cell beginNodeTag).size % 4 = 0 := by
      rw [ByteArray.size_append, size_cell]
      omega
    have shown := bytesOf_padded start (terminated name)
    rw [bytesOf_append, List.append_assoc] at shown
    refine ⟨⟨(size_padded _).1, sound.stored⟩, _, shown, fun more rest => ?_⟩
    rw [List.append_assoc]
    exact lexeme_beginNode plain _ rest
  | endNode =>
    have tag : endNodeTag.toNat = 2 := rfl
    refine ⟨⟨?_, sound.stored⟩, _, bytesOf_append _ _, fun more rest => ?_⟩
    · simp only [add, ByteArray.size_append, size_cell]
      omega
    · simp only [lexeme?, word_cell, tag, Option.bind_eq_bind, Option.bind_some]
      rfl
  | property name value =>
    obtain ⟨body, _⟩ := blocks.intern_grows name
    obtain ⟨interned, named⟩ := intern_sound sound plain stringsSmall
    have bound := (size_padded ((blocks.intern name).2.body ++ cell propertyTag ++ cell (UInt32.ofNat value.size) ++
      cell (blocks.intern name).1 ++ value)).2
    have start : (blocks.body ++ cell propertyTag ++ cell (UInt32.ofNat value.size) ++ cell (blocks.intern name).1).size % 4 =
        0 := by
      simp only [ByteArray.size_append, size_cell]
      omega
    have small : value.size < UInt32.size := by
      refine Nat.lt_of_le_of_lt ?_ bodySmall
      refine Nat.le_trans ?_ bound
      rw [ByteArray.size_append]
      omega
    have shown := bytesOf_padded start value
    have read := fun more rest => lexeme_property (named.append more) value small rest
    simp only [bytesOf_append, List.append_assoc] at shown read
    rw [← body] at shown
    refine ⟨⟨(size_padded _).1, interned.stored⟩, _, shown.trans (by rw [body]), fun more rest => ?_⟩
    simp only [List.append_assoc]
    exact read more rest

theorem tokens_token {strings bytes rest : List UInt8} {token : Token}
    (read : lexeme? strings bytes = some (.token token, rest)) :
    tokens? strings bytes = (tokens? strings rest).map (token :: ·) := by
  rw [tokens?]
  split
  · rename_i _ other same
    cases read.symm.trans same
    rfl
  · rename_i same
    cases read.symm.trans same
  · rename_i same
    cases read.symm.trans same
  · rename_i same
    cases read.symm.trans same

theorem Blocks.addAll_reads (tokens : List Token) {blocks : Blocks} (sound : blocks.Sound)
    (plain : ∀ token ∈ tokens, token.Plain) (bodySmall : (tokens.foldl add blocks).body.size < UInt32.size)
    (stringsSmall : (tokens.foldl add blocks).strings.size < UInt32.size) :
    (tokens.foldl add blocks).Sound ∧ ∃ shown, bytesOf (tokens.foldl add blocks).body = bytesOf blocks.body ++ shown ∧
      ∀ rest, tokens? (bytesOf (tokens.foldl add blocks).strings) (shown ++ rest) =
        (tokens? (bytesOf (tokens.foldl add blocks).strings) rest).map (tokens ++ ·) := by
  induction tokens generalizing blocks with
  | nil => exact ⟨sound, [], (List.append_nil _).symm, fun rest => by simp⟩
  | cons token tokens same =>
    have later := addAll_grown tokens (blocks.add token)
    have wrote := add_wrote sound (plain token List.mem_cons_self) (Nat.lt_of_le_of_lt later.body bodySmall)
      (Nat.lt_of_le_of_lt later.size stringsSmall)
    obtain ⟨shown, added, reads⟩ := wrote.shows
    obtain ⟨final, others, behind, follows⟩ := same wrote.sound (fun other member => plain other (List.mem_cons_of_mem _ member))
      bodySmall stringsSmall
    obtain ⟨more, grown⟩ := later.strings
    refine ⟨final, shown ++ others, ?_, fun rest => ?_⟩
    · rw [List.foldl_cons, behind, added, List.append_assoc]
    · rw [List.foldl_cons, List.append_assoc]
      have first := reads more (others ++ rest)
      rw [← grown] at first
      rw [tokens_token first, follows rest, Option.map_map]
      rfl

theorem tokens_end (strings : List UInt8) : tokens? strings (bytesOf (cell endTag)) = some [] := by
  have tag : endTag.toNat = 9 := rfl
  have stops : lexeme? strings (bytesOf (cell endTag)) = some (.stop, []) := by
    have read := word_cell endTag []
    rw [List.append_nil] at read
    simp only [lexeme?, read, tag, Option.bind_eq_bind, Option.bind_some]
    rfl
  rw [tokens?]
  split
  · rename_i same
    cases stops.symm.trans same
  · rename_i same
    cases stops.symm.trans same
  · rename_i same
    cases stops.symm.trans same
    rfl
  · rename_i same
    cases stops.symm.trans same

end Fdt

end RvBoard
