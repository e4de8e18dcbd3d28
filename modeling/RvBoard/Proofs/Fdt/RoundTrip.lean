import RvBoard.Proofs.Fdt.Writing

/-!
# Round trip of device trees

A blob that was written for a tree reads as that tree: its header tells where its blocks are, and the
tokens that its structure block reads as are those of one tree.
-/

set_option autoImplicit false

namespace RvBoard.Fdt

section Layout

variable (tokens : List Token)

-- The blocks of a whole tree, before the end of the structure block.
def written : Blocks :=
  tokens.foldl Blocks.add {}

def structureBlock : List UInt8 :=
  bytesOf (written tokens).body ++ bytesOf (cell endTag)

def stringsBlock : List UInt8 :=
  bytesOf (written tokens).strings

def headerCells : List UInt32 :=
  let bodySize := UInt32.ofNat (structureBlock tokens).length
  let stringsSize := UInt32.ofNat (stringsBlock tokens).length
  [magic, 56 + bodySize + stringsSize, 56, 56 + bodySize, headerSize, version, lastCompatibleVersion, 0, stringsSize,
    bodySize]

def headerBlock : List UInt8 :=
  (headerCells tokens).flatMap fun value => bytesOf (cell value)

theorem blob_layout :
    bytesOf (blob tokens) =
      headerBlock tokens ++ (List.replicate 16 0 ++ (structureBlock tokens ++ stringsBlock tokens)) := by
  have reserved : bytesOf (Bytes.zeros reserveMapSize.toNat) = List.replicate 16 0 := Bytes.listOf_zeros 16
  have size : ((written tokens).body ++ cell endTag).size = (structureBlock tokens).length := by
    rw [structureBlock, ← bytesOf_append]
    rfl
  have cells : ∀ (cells : List UInt32) (out : ByteArray),
      bytesOf (cells.foldl (fun out word => out ++ cell word) out) = bytesOf out ++ cells.flatMap fun value => bytesOf (cell value) := by
    intro cells
    induction cells with
    | nil => simp
    | cons value rest same => simp [same]
  unfold blob
  extract_lets blocks body bodySize stringsSize bodyOffset stringsOffset header
  have same : header = headerCells tokens := by
    change [magic, 56 + UInt32.ofNat ((written tokens).body ++ cell endTag).size + stringsSize, 56,
      56 + UInt32.ofNat ((written tokens).body ++ cell endTag).size, headerSize, version, lastCompatibleVersion, 0,
      stringsSize, UInt32.ofNat ((written tokens).body ++ cell endTag).size] = _
    rw [size]
    rfl
  rw [same, bytesOf_append, bytesOf_append, bytesOf_append, cells, reserved, List.append_assoc, List.append_assoc]
  simp only [body, bytesOf_append]
  rfl

theorem length_headerBlock : (headerBlock tokens).length = 40 := by
  simp [headerBlock, headerCells]

variable {tokens}

theorem size_blob : (blob tokens).size = 56 + (structureBlock tokens).length + (stringsBlock tokens).length := by
  rw [← length_bytesOf, blob_layout]
  simp only [List.length_append, length_headerBlock, List.length_replicate]
  omega

def headerOf (bodySize stringsSize : Nat) : Header where
  magic := 0xd00dfeed
  total := 56 + bodySize + stringsSize
  structureOffset := 56
  stringsOffset := 56 + bodySize
  reservedOffset := 40
  version := 17
  lastCompatible := 16
  bootHart := 0
  stringsSize := stringsSize
  structureSize := bodySize

theorem header_blob (small : (blob tokens).size < UInt32.size) :
    header? (bytesOf (blob tokens)) =
      some (headerOf (structureBlock tokens).length (stringsBlock tokens).length) := by
  rw [size_blob] at small
  rw [blob_layout, headerBlock, headerCells]
  generalize (structureBlock tokens).length = bodySize at small ⊢
  generalize (stringsBlock tokens).length = stringsSize at small ⊢
  have body : (UInt32.ofNat bodySize).toNat = bodySize := UInt32.toNat_ofNat_of_lt' (by omega)
  have strings : (UInt32.ofNat stringsSize).toNat = stringsSize := UInt32.toNat_ofNat_of_lt' (by omega)
  have fixed : (56 : UInt32).toNat = 56 ∧ (0 : UInt32).toNat = 0 := ⟨rfl, rfl⟩
  have start : (56 + UInt32.ofNat bodySize).toNat = 56 + bodySize := by
    rw [UInt32.toNat_add, body, fixed.1]
    exact Nat.mod_eq_of_lt (by change _ < UInt32.size; omega)
  have total : (56 + UInt32.ofNat bodySize + UInt32.ofNat stringsSize).toNat = 56 + bodySize + stringsSize := by
    rw [UInt32.toNat_add, start, strings]
    exact Nat.mod_eq_of_lt (by change _ < UInt32.size; omega)
  have first : magic.toNat = 0xd00dfeed := rfl
  have sizes : headerSize.toNat = 40 ∧ version.toNat = 17 ∧ lastCompatibleVersion.toNat = 16 := ⟨rfl, rfl, rfl⟩
  simp only [List.flatMap_cons, List.flatMap_nil, List.append_assoc, header?, word_cell, Option.bind_eq_bind,
    Option.bind_some, body, strings, start, total, first, sizes, fixed, headerOf]
  rfl

theorem reserved_zeros : reserved? (List.replicate 16 0) = some [] := by
  rw [reserved?, if_neg (by decide), if_pos (by decide)]

end Layout

theorem tokens_blob {tokens : List Token} (plain : ∀ token ∈ tokens, token.Plain) (small : (blob tokens).size < UInt32.size) :
    tokens? (stringsBlock tokens) (structureBlock tokens) = some tokens ∧ (structureBlock tokens).length % 4 = 0 := by
  rw [size_blob, structureBlock, List.length_append, length_bytesOf, length_bytesOf, size_cell] at small
  have bodySmall : (written tokens).body.size < UInt32.size := by omega
  have stringsSmall : (written tokens).strings.size < UInt32.size := by
    change (stringsBlock tokens).length < _
    omega
  obtain ⟨sound, shown, all, reads⟩ := Blocks.addAll_reads tokens Blocks.sound_empty plain bodySmall stringsSmall
  constructor
  · rw [structureBlock, written, all]
    have read := reads (bytesOf (cell endTag))
    rw [tokens_end, Option.map_some, List.append_nil] at read
    exact read
  · have aligned := sound.aligned
    change (written tokens).body.size % 4 = 0 at aligned
    rw [structureBlock, List.length_append, length_bytesOf, length_bytesOf, size_cell]
    omega

def Contents.tokens : Contents → List Token
  | .nothing => []
  | .property name value rest => .property name value :: rest.tokens
  | .node name inner rest => .beginNode name :: (inner.tokens ++ .endNode :: rest.tokens)

-- The calls that describe a tree.
def Tree.tokens (tree : Tree) : List Token :=
  .beginNode tree.name :: (tree.contents.tokens ++ [.endNode])

-- With so many nodes open, these tokens close them all, the outermost one at the very end.
def Closes : Nat → List Token → Prop
  | 0, tokens => tokens = []
  | _ + 1, [] => False
  | depth + 1, .beginNode _ :: rest => Closes (depth + 2) rest
  | depth + 1, .endNode :: rest => Closes depth rest
  | depth + 1, .property _ _ :: rest => Closes (depth + 1) rest

-- The tokens describe one node with all that is in it.
def OneNode : List Token → Prop
  | .beginNode _ :: rest => Closes 1 rest
  | _ => False

theorem contents_of_closes (n : Nat) {depth : Nat} {tokens : List Token} (bound : tokens.length ≤ n)
    (closes : Closes (depth + 1) tokens) :
    ∃ contents rest, tokens = Contents.tokens contents ++ .endNode :: rest ∧ Closes depth rest := by
  induction n generalizing depth tokens with
  | zero =>
    cases List.length_eq_zero_iff.mp (Nat.le_zero.mp bound)
    exact closes.elim
  | succ n same =>
    cases tokens with
    | nil => exact closes.elim
    | cons token tokens =>
      rw [List.length_cons] at bound
      cases token with
      | endNode => exact ⟨.nothing, tokens, rfl, closes⟩
      | property name value =>
        obtain ⟨contents, rest, rfl, after⟩ := same (by omega) (show Closes (depth + 1) tokens from closes)
        exact ⟨.property name value contents, rest, rfl, after⟩
      | beginNode name =>
        obtain ⟨inner, behind, rfl, open_⟩ := same (by omega) (show Closes (depth + 2) tokens from closes)
        rw [List.length_append, List.length_cons] at bound
        obtain ⟨contents, rest, rfl, after⟩ := same (by omega) open_
        exact ⟨.node name inner contents, rest, by simp [Contents.tokens], after⟩

theorem tree_of_oneNode {tokens : List Token} (one : OneNode tokens) : ∃ tree : Tree, tree.tokens = tokens := by
  cases tokens with
  | nil => exact one.elim
  | cons token tokens =>
    cases token with
    | beginNode name =>
      obtain ⟨contents, rest, same, after⟩ := contents_of_closes tokens.length (Nat.le_refl _) (show Closes 1 tokens from one)
      simp only [Closes] at after
      subst after
      exact ⟨⟨name, contents⟩, by rw [Tree.tokens, same]⟩
    | _ => exact one.elim

theorem levels_contents (contents : Contents) {rest : List Token} {outer : List Contents}
    (behind : levels? rest = some (.nothing :: outer)) : levels? (contents.tokens ++ rest) = some (contents :: outer) := by
  induction contents generalizing rest outer with
  | nothing => exact behind
  | property name value contents same => simp [Contents.tokens, levels?, same behind]
  | node name inner contents sameInner same =>
    have after : levels? (.endNode :: (contents.tokens ++ rest)) = some (.nothing :: contents :: outer) := by
      simp [levels?, same behind]
    simp [Contents.tokens, levels?, sameInner after]

theorem ofTokens_tokens (tree : Tree) : Tree.ofTokens? tree.tokens = some tree := by
  have last : levels? [.endNode] = some [.nothing, .nothing] := rfl
  have all : levels? tree.tokens = some [.node tree.name tree.contents .nothing] := by
    simp [Tree.tokens, levels?, levels_contents tree.contents last]
  rw [Tree.ofTokens?, all]

/-- The calls that describe one node, names without zeros, and a blob that the offsets can reach:
reading the blob succeeds and gives the tree that those calls describe, with nothing reserved. -/
theorem read_blob {tokens : List Token} (one : OneNode tokens) (plain : ∀ token ∈ tokens, token.Plain)
    (small : (blob tokens).size < UInt32.size) :
    ∃ tree : Tree, tree.tokens = tokens ∧ read? (blob tokens) = some ⟨0, [], tree⟩ := by
  obtain ⟨tree, same⟩ := tree_of_oneNode one
  obtain ⟨reads, whole⟩ := tokens_blob plain small
  have header := header_blob small
  have valid : (headerOf (structureBlock tokens).length (stringsBlock tokens).length).Valid (bytesOf (blob tokens)).length := by
    rw [length_bytesOf, size_blob]
    constructor <;> simp [headerOf, whole]
  have reserved : reserved? (block (bytesOf (blob tokens)) 40 16) = some [] := by
    rw [block, blob_layout, List.drop_left' (length_headerBlock tokens), List.take_left' (List.length_replicate ..),
      reserved_zeros]
  have body : block (bytesOf (blob tokens)) 56 (structureBlock tokens).length = structureBlock tokens := by
    have front : (headerBlock tokens ++ List.replicate 16 0).length = 56 := by
      rw [List.length_append, length_headerBlock, List.length_replicate]
    rw [block, blob_layout, ← List.append_assoc, List.drop_left' front, List.take_left]
  have strings : block (bytesOf (blob tokens)) (56 + (structureBlock tokens).length) (stringsBlock tokens).length =
      stringsBlock tokens := by
    have front : (headerBlock tokens ++ (List.replicate 16 0 ++ structureBlock tokens)).length =
        56 + (structureBlock tokens).length := by
      simp only [List.length_append, length_headerBlock, List.length_replicate]
      omega
    rw [block, blob_layout, ← List.append_assoc (List.replicate 16 0), ← List.append_assoc, List.drop_left' front,
      List.take_length]
  refine ⟨tree, same, ?_⟩
  have tree := ofTokens_tokens tree
  rw [same] at tree
  unfold read?
  simp only [header, Option.bind_eq_bind, Option.bind_some, if_pos valid]
  simp [headerOf, reserved, body, strings, reads, tree]

def mixed : List Token :=
  [.beginNode "", .property "reg" ⟨#[1, 2, 3]⟩, .property "é" ⟨#[0, 0, 0, 0]⟩, .property "model" ⟨#[0x61, 0]⟩,
    .property "e" ⟨#[9]⟩, .beginNode "cpu", .property "reg" ⟨#[]⟩, .endNode, .endNode]

theorem read_blob_mixed :
    OneNode mixed ∧ (∀ token ∈ mixed, token.Plain) ∧ (blob mixed).size < UInt32.size ∧
      read? (blob mixed) = some ⟨0, [], ⟨"", .property "reg" ⟨#[1, 2, 3]⟩ (.property "é" ⟨#[0, 0, 0, 0]⟩
        (.property "model" ⟨#[0x61, 0]⟩ (.property "e" ⟨#[9]⟩ (.node "cpu" (.property "reg" ⟨#[]⟩ .nothing) .nothing))))⟩⟩ := by
  have one : OneNode mixed := rfl
  have plain : ∀ token ∈ mixed, token.Plain := by decide
  have small : (blob mixed).size < UInt32.size := by decide +kernel
  obtain ⟨tree, same, read⟩ := read_blob one plain small
  have known := ofTokens_tokens tree
  rw [same] at known
  cases known
  exact ⟨one, plain, small, read⟩

end RvBoard.Fdt
