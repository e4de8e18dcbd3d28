import RvBoard.Proofs.Instr.Fields

/-!
# The decoder and its table

Looking a word up by its opcode, then by its function fields or its pattern, finds the one row of the table whose
encoding the word matches. The operands together with the row make up the whole word.
-/

set_option autoImplicit false

namespace RvBoard

-- The function fields that select a row whose operands have this format.
def Format.needsFunct3 : Format → Bool
  | .r | .i | .s | .b => true
  | .plain | .u | .j | .a => false

def Format.needsFunct7 : Format → Bool
  | .r => true
  | .plain | .i | .s | .b | .u | .j | .a => false

def Format.selection : Format → Selection
  | .r => .funct7
  | .i | .s | .b => .funct3
  | .plain | .u | .j | .a => .complete

/-- A word matches a row by its opcode and the function fields that the row's format needs, or by its pattern. -/
def Row.Matches (row : Row) (word : UInt32) : Prop :=
  match row.encoding.major? with
  | some major =>
    bitsAt word 0 7 = major ∧ (row.op.format.needsFunct3 = true → bitsAt word 12 3 = row.encoding.f3) ∧
      (row.op.format.needsFunct7 = true → bitsAt word 25 7 = row.encoding.f7)
  | none => ∀ bits ∈ row.encoding.fixed, bitsAt word bits.low bits.width = bits.value

-- The fixed bits lie in the word, and the value in them.
def FixedBits.Fits (bits : FixedBits) : Prop :=
  bits.low.toNat < 32 ∧ bits.width.toNat < 32 ∧ bits.low.toNat + bits.width.toNat ≤ 32 ∧
    bitsAt bits.value 0 bits.width = bits.value

instance (bits : FixedBits) : Decidable bits.Fits :=
  inferInstanceAs (Decidable (_ ∧ _))

-- The encoding gives the function fields that the format needs.
def Encoding.Serves (format : Format) : Encoding → Prop
  | .opcode _ => format.needsFunct3 = false ∧ format.needsFunct7 = false
  | .funct3 _ _ => format.needsFunct3 = true ∧ format.needsFunct7 = false
  | .funct7 _ _ _ => format.needsFunct3 = true ∧ format.needsFunct7 = true
  | .pattern _ => True

instance (format : Format) : (encoding : Encoding) → Decidable (encoding.Serves format)
  | .opcode _ | .funct3 _ _ | .funct7 _ _ _ => inferInstanceAs (Decidable (_ ∧ _))
  | .pattern _ => inferInstanceAs (Decidable True)

section Masks

variable {a b c x y word : UInt32}

theorem bool_or_eq : ∀ w a b x y : Bool, (a && b) = false → (x && a) = x → (y && b) = y →
    ((w && (a || b)) = (x || y) ↔ (w && a) = x ∧ (w && b) = y) := by
  decide

theorem and_or_eq (apart : a &&& b = 0) (within : x &&& a = x) (inside : y &&& b = y) :
    word &&& (a ||| b) = x ||| y ↔ word &&& a = x ∧ word &&& b = y := by
  have bits (i : Nat) := bool_or_eq (bitOf word i) (bitOf a i) (bitOf b i) (bitOf x i) (bitOf y i)
    (by rw [← bitOf_and, apart]; simp [bitOf]) (by rw [← bitOf_and, within]) (by rw [← bitOf_and, inside])
  simp only [← bitOf_or, ← bitOf_and] at bits
  constructor
  · intro same
    have parts (i : Nat) := (bits i).mp (congrArg (bitOf · i) same)
    exact ⟨word32_eq_of_bits fun i _ => (parts i).1, word32_eq_of_bits fun i _ => (parts i).2⟩
  · rintro ⟨first, second⟩
    exact word32_eq_of_bits fun i _ => (bits i).mpr ⟨congrArg (bitOf · i) first, congrArg (bitOf · i) second⟩

theorem bool_or_within : ∀ a b x y : Bool, (x && a) = x → (y && b) = y → ((x || y) && (a || b)) = (x || y) := by
  decide

theorem or_within (within : x &&& a = x) (inside : y &&& b = y) : (x ||| y) &&& (a ||| b) = x ||| y := by
  apply word32_eq_of_bits
  intro i _
  rw [bitOf_and, bitOf_or, bitOf_or]
  exact bool_or_within _ _ _ _ (by rw [← bitOf_and, within]) (by rw [← bitOf_and, inside])

theorem or_apart (first : a &&& c = 0) (second : b &&& c = 0) : (a ||| b) &&& c = 0 := by
  rw [UInt32.and_comm, ← and_or_and, UInt32.and_comm c a, UInt32.and_comm c b, first, second, UInt32.or_self]

namespace FixedBits

variable {bits : FixedBits}

theorem Fits.field (fits : bits.Fits) : bits.key &&& bits.mask = bits.key := by
  obtain ⟨start, small, inside, value⟩ := fits
  have moved : bitsAt bits.key bits.low bits.width = bits.value := by
    rw [key, ← value, bitsAt_moved (by decide) inside small start]
  exact (bitsAt_shift start small).symm.trans (by rw [moved]; rfl)

theorem Fits.holds (fits : bits.Fits) : bitsAt word bits.low bits.width = bits.value ↔ word &&& bits.mask = bits.key := by
  obtain ⟨start, small, inside, value⟩ := fits
  have field : word &&& bits.mask = bitsAt word bits.low bits.width <<< bits.low := (bitsAt_shift start small).symm
  rw [field, key]
  constructor
  · exact congrArg (· <<< bits.low)
  · intro same
    have moved : bitsAt (bitsAt word bits.low bits.width <<< bits.low) bits.low bits.width =
        bitsAt (bits.value <<< bits.low) bits.low bits.width := by rw [same]
    rw [← value, bitsAt_moved start inside small start, bitsAt_moved (by decide) inside small start, value] at moved
    exact moved

end FixedBits

theorem fold_holds {fixed : List FixedBits} {mask key : UInt32} (within : key &&& mask = key) (fits : ∀ bits ∈ fixed, bits.Fits)
    (apart : ∀ bits ∈ fixed, mask &&& bits.mask = 0) (others : fixed.Pairwise fun a b => a.mask &&& b.mask = 0) :
    word &&& fixed.foldl (fun mask bits => mask ||| bits.mask) mask = fixed.foldl (fun key bits => key ||| bits.key) key ↔
      word &&& mask = key ∧ ∀ bits ∈ fixed, bitsAt word bits.low bits.width = bits.value := by
  induction fixed generalizing mask key with
  | nil => simp
  | cons bits fixed ih =>
    obtain ⟨fitsHere, fitsLater⟩ := List.forall_mem_cons.mp fits
    obtain ⟨apartHere, apartLater⟩ := List.forall_mem_cons.mp apart
    obtain ⟨othersHere, othersLater⟩ := List.pairwise_cons.mp others
    rw [List.foldl_cons, List.foldl_cons, ih (or_within within fitsHere.field) fitsLater
      (fun later member => or_apart (apartLater later member) (othersHere later member)) othersLater,
      and_or_eq apartHere within fitsHere.field, List.forall_mem_cons, fitsHere.holds, and_assoc]

end Masks

section Table

variable {row other : Row} {word : UInt32}

theorem rows_fit : ∀ row ∈ rows, (∀ bits ∈ row.encoding.fixed, bits.Fits) ∧
    row.encoding.fixed.Pairwise fun a b => a.mask &&& b.mask = 0 := by
  decide +kernel

theorem rows_serve : ∀ row ∈ rows, row.encoding.Serves row.op.format := by
  decide +kernel

theorem rows_conflict : rows.Pairwise fun a b => a.key &&& b.mask ≠ b.key &&& a.mask := by
  decide +kernel

theorem rows_key : ∀ row ∈ rows, row.op.key = row.key := by
  decide +kernel

theorem rows_covered : ∀ row ∈ rows, row.mask ||| row.op.operandMask = -1 := by
  decide +kernel

theorem matches_fixed (serves : row.encoding.Serves row.op.format) :
    row.Matches word ↔ ∀ bits ∈ row.encoding.fixed, bitsAt word bits.low bits.width = bits.value := by
  unfold Row.Matches
  cases same : row.encoding with
  | opcode major =>
    rw [same] at serves
    simp [Encoding.major?, Encoding.fixed, serves.1, serves.2]
  | funct3 major f3 =>
    rw [same] at serves
    simp [Encoding.major?, Encoding.fixed, Encoding.f3, serves.1, serves.2, and_comm]
  | funct7 major f3 f7 =>
    rw [same] at serves
    simp [Encoding.major?, Encoding.fixed, Encoding.f3, Encoding.f7, serves.1, serves.2]
    grind
  | pattern bits => rfl

theorem matches_iff (known : row ∈ rows) : row.Matches word ↔ word &&& row.mask = row.key := by
  obtain ⟨fits, apart⟩ := rows_fit row known
  have folded : word &&& row.mask = row.key ↔
      word &&& 0 = 0 ∧ ∀ bits ∈ row.encoding.fixed, bitsAt word bits.low bits.width = bits.value :=
    fold_holds rfl fits (fun _ _ => UInt32.zero_and) apart
  rw [matches_fixed (rows_serve row known), folded, and_iff_right UInt32.and_zero]

theorem matches_unique (known : row ∈ rows) (knownToo : other ∈ rows) (here : row.Matches word)
    (there : other.Matches word) : row = other := by
  rw [matches_iff known] at here
  rw [matches_iff knownToo] at there
  have agree : row.key &&& other.mask = other.key &&& row.mask := by
    rw [← here, ← there, UInt32.and_assoc, UInt32.and_comm row.mask, UInt32.and_assoc]
  obtain ⟨i, small, rfl⟩ := List.getElem_of_mem known
  obtain ⟨j, smallToo, rfl⟩ := List.getElem_of_mem knownToo
  have conflict := List.pairwise_iff_getElem.mp rows_conflict
  rcases Nat.lt_trichotomy i j with before | rfl | behind
  · exact absurd agree (conflict i j small smallToo before)
  · rfl
  · exact absurd agree.symm (conflict j i smallToo small behind)

end Table

section Groups

variable {major word : UInt32} {row other : Row}

def Row.functKey (row : Row) (major : UInt32) : UInt32 :=
  match row.op.format.selection with
  | .funct3 => RvBoard.functKey major row.encoding.f3 0
  | _ => RvBoard.functKey major row.encoding.f3 row.encoding.f7

theorem insert_entries (group : Group) :
    (group.insert major row).entries = group.entries ++ [(row.functKey major, row)] := by
  unfold Group.insert Row.functKey
  cases row.op.format <;> rfl

theorem foldl_entries (some : List Row) (group : Group) :
    (some.foldl (Group.insert major) group).entries = group.entries ++ some.map fun row => (row.functKey major, row) := by
  induction some generalizing group with
  | nil => simp
  | cons row some ih => rw [List.foldl_cons, ih, insert_entries, List.append_assoc, List.map_cons, List.singleton_append]

theorem mem_ofMajor {key : UInt32} (member : (key, row) ∈ (Group.ofMajor major).entries) :
    row ∈ rows ∧ row.encoding.major? = some major ∧ key = row.functKey major := by
  rw [Group.ofMajor, foldl_entries] at member
  obtain ⟨known, found, same⟩ := List.mem_map.mp member
  cases same
  obtain ⟨known, opcode⟩ := List.mem_filter.mp found
  exact ⟨known, eq_of_beq opcode, rfl⟩

theorem ofMajor_mem (known : row ∈ rows) (opcode : row.encoding.major? = some major) :
    (row.functKey major, row) ∈ (Group.ofMajor major).entries := by
  rw [Group.ofMajor, foldl_entries]
  exact List.mem_map.mpr ⟨row, List.mem_filter.mpr ⟨known, beq_iff_eq.mpr opcode⟩, rfl⟩

theorem rows_selection : ∀ row ∈ rows, (row.encoding.major?.map fun major => (Group.ofMajor major).selection) =
    row.encoding.major?.map fun _ => row.op.format.selection := by
  decide +kernel

theorem ofMajor_selection (known : row ∈ rows) (opcode : row.encoding.major? = some major) :
    (Group.ofMajor major).selection = row.op.format.selection := by
  have selection := rows_selection row known
  rw [opcode] at selection
  exact Option.some.inj selection

theorem rows_narrow : ∀ row ∈ rows, row.encoding.f3.toNat < 8 ∧ row.encoding.f7.toNat < 128 := by
  decide +kernel

theorem functKey_inj {f3 f7 g3 g7 : UInt32} (f3Small : f3.toNat < 8) (f7Small : f7.toNat < 128) (g3Small : g3.toNat < 8)
    (g7Small : g7.toNat < 128) (same : functKey major f3 f7 = functKey major g3 g7) : f3 = g3 ∧ f7 = g7 := by
  have numbers := congrArg UInt32.toNat same
  simp only [functKey, UInt32.toNat_add, UInt32.toNat_shiftLeft, Nat.shiftLeft_eq, UInt32.reduceToNat, Nat.reduceMod,
    Nat.reducePow] at numbers
  exact ⟨UInt32.toNat_inj.mp (by omega), UInt32.toNat_inj.mp (by omega)⟩

theorem funct3_small : (bitsAt word 12 3).toNat < 8 := by
  rw [toNat_bitsAt (by decide)]
  exact Nat.mod_lt _ (by decide)

theorem funct7_small : (word >>> 25).toNat < 128 := by
  have bound := word.toNat_lt
  rw [UInt32.toNat_shiftRight, Nat.shiftRight_eq_div_pow]
  exact Nat.div_lt_of_lt_mul bound

theorem funct7_field : bitsAt word 25 7 = word >>> 25 := by
  apply UInt32.toNat_inj.mp
  rw [toNat_bitsAt (by decide)]
  exact Nat.mod_eq_of_lt funct7_small

theorem get_mem {group : Group} {key : UInt32} (found : group.get? key = some row) : (key, row) ∈ group.entries := by
  obtain ⟨⟨other, _⟩, here, rfl⟩ := Option.map_eq_some_iff.mp found
  obtain rfl : other = key := by simpa using List.find?_some here
  exact List.mem_of_find?_eq_some here

theorem get_isSome {group : Group} {key : UInt32} (member : (key, row) ∈ group.entries) : (group.get? key).isSome = true := by
  rw [Group.get?, Option.isSome_map, List.find?_isSome]
  exact ⟨_, member, beq_self_eq_true key⟩

theorem needsFunct3_iff (format : Format) :
    format.needsFunct3 = true ↔ format.selection = .funct3 ∨ format.selection = .funct7 := by
  cases format <;> decide

theorem needsFunct7_iff (format : Format) : format.needsFunct7 = true ↔ format.selection = .funct7 := by
  cases format <;> decide

theorem functKey_matches (known : row ∈ rows) (opcode : row.encoding.major? = some (bitsAt word 0 7)) :
    row.Matches word ↔ match (Group.ofMajor (bitsAt word 0 7)).selection with
      | .funct3 => row.functKey (bitsAt word 0 7) = functKey (bitsAt word 0 7) (bitsAt word 12 3) 0
      | .funct7 => row.functKey (bitsAt word 0 7) = functKey (bitsAt word 0 7) (bitsAt word 12 3) (word >>> 25)
      | _ => True := by
  obtain ⟨f3Small, f7Small⟩ := rows_narrow row known
  unfold Row.Matches Row.functKey
  rw [opcode, ofMajor_selection known opcode]
  simp only [needsFunct3_iff, needsFunct7_iff, funct7_field, true_and]
  cases row.op.format.selection with
  | unknown | complete => simp
  | funct3 =>
    simp only [reduceCtorEq, or_false, true_implies, false_implies, and_true]
    constructor
    · intro same
      rw [same]
    · intro same
      exact (functKey_inj f3Small (by decide) funct3_small (by decide) same).1.symm
  | funct7 =>
    simp only [reduceCtorEq, false_or, true_implies]
    constructor
    · rintro ⟨sameF3, sameF7⟩
      rw [sameF3, sameF7]
    · intro same
      obtain ⟨sameF3, sameF7⟩ := functKey_inj f3Small f7Small funct3_small funct7_small same
      exact ⟨sameF3.symm, sameF7.symm⟩

theorem find_matches (found : (Group.ofMajor (bitsAt word 0 7)).find? word = some row) : row ∈ rows ∧ row.Matches word := by
  unfold Group.find? at found
  cases selection : (Group.ofMajor (bitsAt word 0 7)).selection with
  | unknown => simp [selection] at found
  | complete =>
    simp only [selection] at found
    obtain ⟨⟨key, _⟩, first, rfl⟩ := Option.map_eq_some_iff.mp found
    obtain ⟨known, opcode, _⟩ := mem_ofMajor (List.mem_of_head? first)
    have number := functKey_matches known opcode
    rw [selection] at number
    exact ⟨known, number.mpr trivial⟩
  | funct3 | funct7 =>
    simp only [selection] at found
    obtain ⟨known, opcode, same⟩ := mem_ofMajor (get_mem found)
    have number := functKey_matches known opcode
    rw [selection] at number
    exact ⟨known, number.mpr same.symm⟩

theorem find_isSome (known : row ∈ rows) (opcode : row.encoding.major? = some (bitsAt word 0 7)) (here : row.Matches word) :
    ((Group.ofMajor (bitsAt word 0 7)).find? word).isSome = true := by
  have member := ofMajor_mem known opcode
  have number := (functKey_matches known opcode).mp here
  unfold Group.find?
  cases selection : (Group.ofMajor (bitsAt word 0 7)).selection with
  | unknown =>
    have format := ofMajor_selection known opcode
    rw [selection] at format
    cases kind : row.op.format <;> rw [kind] at format <;> cases format
  | complete =>
    rw [Option.isSome_map, List.isSome_head?]
    exact List.ne_nil_of_mem member
  | funct3 | funct7 =>
    rw [selection] at number
    exact get_isSome (number ▸ member)

end Groups

section Words

variable {word : UInt32} {row : Row} {instr : Instr}

theorem get_ofFn {α : Type} {n : Nat} (f : Fin n → α) (i : Fin n) : (Vector.ofFn f).get i = f i :=
  Vector.getElem_ofFn i.isLt

theorem decode_group (word : UInt32) :
    decode word = match (Group.ofMajor (bitsAt word 0 7)).find? word with
      | some row => some (row.decode word)
      | none => (patternRows.find? (·.selects word)).map (·.decode word) := by
  have opcode : bitsAt word 0 7 = word &&& 0x7f := by
    rw [bitsAt, UInt32.shiftRight_zero]
    rfl
  have group : functGroups.get ⟨(word &&& 0x7f).toNat, majorIndex_lt word⟩ = Group.ofMajor (bitsAt word 0 7) := by
    rw [functGroups, get_ofFn, opcode]
    exact congrArg Group.ofMajor UInt32.ofNat_toNat
  rw [← group]
  rfl

theorem pattern_matches (chosen : patternRows.find? (·.selects word) = some row) : row ∈ rows ∧ row.Matches word := by
  have known := (List.mem_filter.mp (List.mem_of_find?_eq_some chosen)).1
  have selects : row.selects word = true := by
    have holds := List.find?_some chosen
    exact holds
  exact ⟨known, (matches_iff known).mpr (eq_of_beq selects)⟩

theorem decode_of_matches (known : row ∈ rows) (here : row.Matches word) : decode word = some (row.decode word) := by
  rw [decode_group]
  cases found : (Group.ofMajor (bitsAt word 0 7)).find? word with
  | some other =>
    obtain ⟨knownToo, there⟩ := find_matches found
    rw [matches_unique known knownToo here there]
  | none =>
    have pattern : row.encoding.major? = none := by
      cases opcode : row.encoding.major? with
      | none => rfl
      | some major =>
        have same : bitsAt word 0 7 = major := by
          unfold Row.Matches at here
          rw [opcode] at here
          exact here.1
        have some := find_isSome known (same ▸ opcode) here
        simp [found] at some
    have selects : row.selects word = true := beq_iff_eq.mpr ((matches_iff known).mp here)
    have member : row ∈ patternRows := List.mem_filter.mpr ⟨known, by simp [pattern]⟩
    cases chosen : patternRows.find? (·.selects word) with
    | none => exact absurd selects (List.find?_eq_none.mp chosen row member)
    | some other =>
      obtain ⟨knownToo, there⟩ := pattern_matches chosen
      rw [matches_unique known knownToo here there]
      rfl

theorem matches_of_decode (decoded : decode word = some instr) :
    ∃ row ∈ rows, row.Matches word ∧ instr = row.decode word := by
  rw [decode_group] at decoded
  cases found : (Group.ofMajor (bitsAt word 0 7)).find? word with
  | some row =>
    rw [found] at decoded
    cases decoded
    obtain ⟨known, here⟩ := find_matches found
    exact ⟨row, known, here, rfl⟩
  | none =>
    rw [found] at decoded
    obtain ⟨row, chosen, rfl⟩ := Option.map_eq_some_iff.mp decoded
    obtain ⟨known, here⟩ := pattern_matches chosen
    exact ⟨row, known, here, rfl⟩

theorem encode_row (known : row ∈ rows) (here : row.Matches word) : encode (row.decode word) = word := by
  change row.op.key ||| row.op.format.write (row.op.readArgs word) = word
  rw [rows_key row known, write_readArgs, ← (matches_iff known).mp here, and_or_and, rows_covered row known,
    UInt32.and_neg_one]

theorem encode_decode (decoded : decode word = some instr) : encode instr = word := by
  obtain ⟨row, known, here, rfl⟩ := matches_of_decode decoded
  exact encode_row known here

end Words

/-- A word decodes to an instruction if and only if it matches a row of the table, which then is the only one. The
instruction has everything that the word says: encoding it gives the word back, and no other word decodes to it. -/
theorem decode_exact (word : UInt32) :
    (∀ instr, decode word = some instr ↔ ∃ row ∈ rows, row.Matches word ∧ instr = row.decode word) ∧
      (∀ row ∈ rows, ∀ other ∈ rows, row.Matches word → other.Matches word → row = other) ∧
      ∀ instr, decode word = some instr → encode instr = word ∧ ∀ other, decode other = some instr → other = word := by
  refine ⟨fun instr => ⟨matches_of_decode, ?_⟩, fun row known other knownToo => matches_unique known knownToo,
    fun instr decoded => ⟨encode_decode decoded, fun other decodedToo => ?_⟩⟩
  · rintro ⟨row, known, here, rfl⟩
    exact decode_of_matches known here
  · rw [← encode_decode decoded, ← encode_decode decodedToo]

example : decode 0x43f5d593 = some ⟨.aluImm .srai, (⟨11, 11, 63⟩ : IArgs)⟩ := by decide +kernel

end RvBoard
