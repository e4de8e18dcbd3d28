import RvBoard.Fdt

/-!
# Reading flattened device trees

How firmware reads the binary form, written down from the rules of the format: a header says where
the blocks are, the structure block is a row of lexemes in whole cells, and names of properties stand
in the strings block. The reader knows nothing of how a blob is written.
-/

set_option autoImplicit false

namespace RvBoard.Fdt

-- What is in a node, in order. The format has the properties first; the reader lets them follow nodes as well.
inductive Contents where
  | nothing
  | property (name : String) (value : ByteArray) (rest : Contents)
  | node (name : String) (inner rest : Contents)

structure Tree where
  name : String
  contents : Contents

structure Reading where
  bootHart : Nat
  reserved : List (Nat × Nat)
  tree : Tree

-- The number whose bytes are given highest first.
def number (bytes : List UInt8) : Nat :=
  bytes.foldl (fun value byte => value * 256 + byte.toNat) 0

def word? : List UInt8 → Option (Nat × List UInt8)
  | a :: b :: c :: d :: rest => some (number [a, b, c, d], rest)
  | _ => none

def filled? (n : Nat) (bytes : List UInt8) : Option (List UInt8 × List UInt8) :=
  let whole := (n + 3) / 4 * 4
  if whole ≤ bytes.length && ((bytes.take whole).drop n).all (· == 0) then some (bytes.take n, bytes.drop whole)
  else none

def untilNul? (bytes : List UInt8) : Option (List UInt8) :=
  let name := bytes.takeWhile (· != 0)
  if name.length < bytes.length then some name else none

def text? (bytes : List UInt8) : Option String :=
  (untilNul? bytes).bind fun name => String.fromUTF8? (Bytes.ofList name)

inductive Lexeme where
  | token (token : Token)
  | nop
  | stop

def lexeme? (strings bytes : List UInt8) : Option (Lexeme × List UInt8) := do
  let (tag, rest) ← word? bytes
  match tag with
  | 1 =>
    let name ← text? rest
    let (_, rest) ← filled? (name.utf8ByteSize + 1) rest
    return (.token (.beginNode name), rest)
  | 2 => return (.token .endNode, rest)
  | 3 =>
    let (size, rest) ← word? rest
    let (offset, rest) ← word? rest
    let name ← text? (strings.drop offset)
    let (value, rest) ← filled? size rest
    return (.token (.property name (Bytes.ofList value)), rest)
  | 4 => return (.nop, rest)
  | 9 => return (.stop, rest)
  | _ => none

theorem word_shorter {bytes rest : List UInt8} {value : Nat} (read : word? bytes = some (value, rest)) :
    rest.length < bytes.length := by
  unfold word? at read
  split at read
  · cases read
    simp only [List.length_cons]
    omega
  · cases read

theorem filled_notLonger {bytes value rest : List UInt8} {n : Nat} (read : filled? n bytes = some (value, rest)) :
    rest.length ≤ bytes.length := by
  unfold filled? at read
  extract_lets whole at read
  split at read
  · cases read
    simp
  · cases read

theorem lexeme_shorter {strings bytes rest : List UInt8} {lexeme : Lexeme}
    (read : lexeme? strings bytes = some (lexeme, rest)) : rest.length < bytes.length := by
  unfold lexeme? at read
  obtain ⟨⟨tag, behind⟩, first, read⟩ := Option.bind_eq_some_iff.mp read
  have shorter := word_shorter first
  dsimp only at read
  split at read
  · obtain ⟨name, _, read⟩ := Option.bind_eq_some_iff.mp read
    obtain ⟨⟨value, last⟩, filled, read⟩ := Option.bind_eq_some_iff.mp read
    have notLonger := filled_notLonger filled
    dsimp only at read
    cases read
    omega
  · cases read
    exact shorter
  · obtain ⟨⟨size, second⟩, sized, read⟩ := Option.bind_eq_some_iff.mp read
    obtain ⟨⟨offset, third⟩, placed, read⟩ := Option.bind_eq_some_iff.mp read
    obtain ⟨name, _, read⟩ := Option.bind_eq_some_iff.mp read
    obtain ⟨⟨value, last⟩, filled, read⟩ := Option.bind_eq_some_iff.mp read
    have afterSize := word_shorter sized
    have afterOffset := word_shorter placed
    have notLonger := filled_notLonger filled
    dsimp only at read notLonger afterOffset
    cases read
    omega
  · cases read
    exact shorter
  · cases read
    exact shorter
  · cases read

def tokens? (strings bytes : List UInt8) : Option (List Token) :=
  match _read : lexeme? strings bytes with
  | some (.token token, rest) => (tokens? strings rest).map (token :: ·)
  | some (.nop, rest) => tokens? strings rest
  | some (.stop, rest) => if rest.isEmpty then some [] else none
  | none => none
termination_by bytes.length
decreasing_by all_goals exact lexeme_shorter _read

def levels? : List Token → Option (List Contents)
  | [] => some [.nothing]
  | .endNode :: rest => (levels? rest).map (.nothing :: ·)
  | .property name value :: rest => do
    match ← levels? rest with
    | behind :: outer => some (.property name value behind :: outer)
    | [] => none
  | .beginNode name :: rest => do
    match ← levels? rest with
    | inner :: behind :: outer => some (.node name inner behind :: outer)
    | _ => none

def Tree.ofTokens? (tokens : List Token) : Option Tree :=
  match levels? tokens with
  | some [.node name contents .nothing] => some ⟨name, contents⟩
  | _ => none

structure Header where
  magic : Nat
  total : Nat
  structureOffset : Nat
  stringsOffset : Nat
  reservedOffset : Nat
  version : Nat
  lastCompatible : Nat
  bootHart : Nat
  stringsSize : Nat
  structureSize : Nat

def header? (bytes : List UInt8) : Option Header := do
  let (magic, bytes) ← word? bytes
  let (total, bytes) ← word? bytes
  let (structureOffset, bytes) ← word? bytes
  let (stringsOffset, bytes) ← word? bytes
  let (reservedOffset, bytes) ← word? bytes
  let (version, bytes) ← word? bytes
  let (lastCompatible, bytes) ← word? bytes
  let (bootHart, bytes) ← word? bytes
  let (stringsSize, bytes) ← word? bytes
  let (structureSize, _) ← word? bytes
  return ⟨magic, total, structureOffset, stringsOffset, reservedOffset, version, lastCompatible, bootHart, stringsSize,
    structureSize⟩

-- The header is one of version 17, or compatible with it, and the blocks that it names lie one behind
-- the other in a blob of this size, each aligned as it has to be.
structure Header.Valid (header : Header) (size : Nat) : Prop where
  magic : header.magic = 0xd00dfeed
  total : header.total = size
  recent : 17 ≤ header.version
  compatible : header.lastCompatible ≤ 17
  reservedAligned : header.reservedOffset % 8 = 0
  structureAligned : header.structureOffset % 4 = 0
  structureWhole : header.structureSize % 4 = 0
  afterHeader : 40 ≤ header.reservedOffset
  afterReserved : header.reservedOffset ≤ header.structureOffset
  afterStructure : header.structureOffset + header.structureSize ≤ header.stringsOffset
  inside : header.stringsOffset + header.stringsSize ≤ header.total

instance (header : Header) (size : Nat) : Decidable (header.Valid size) :=
  decidable_of_iff
    (header.magic = 0xd00dfeed ∧ header.total = size ∧ 17 ≤ header.version ∧ header.lastCompatible ≤ 17 ∧
      header.reservedOffset % 8 = 0 ∧ header.structureOffset % 4 = 0 ∧ header.structureSize % 4 = 0 ∧
      40 ≤ header.reservedOffset ∧ header.reservedOffset ≤ header.structureOffset ∧
      header.structureOffset + header.structureSize ≤ header.stringsOffset ∧
      header.stringsOffset + header.stringsSize ≤ header.total)
    ⟨fun ⟨a, b, c, d, e, f, g, h, i, j, k⟩ => ⟨a, b, c, d, e, f, g, h, i, j, k⟩,
      fun ⟨a, b, c, d, e, f, g, h, i, j, k⟩ => ⟨a, b, c, d, e, f, g, h, i, j, k⟩⟩

-- The reserved ranges of memory, up to the entry of zeros that ends them.
def reserved? (bytes : List UInt8) : Option (List (Nat × Nat)) :=
  if bytes.length < 16 then none
  else if number (bytes.take 8) = 0 ∧ number ((bytes.drop 8).take 8) = 0 then some []
  else (reserved? (bytes.drop 16)).map ((number (bytes.take 8), number ((bytes.drop 8).take 8)) :: ·)
termination_by bytes.length
decreasing_by
  rw [List.length_drop]
  omega

def block (bytes : List UInt8) (offset size : Nat) : List UInt8 :=
  (bytes.drop offset).take size

/-- What a blob says, if it keeps the rules of the format. -/
def read? (blob : ByteArray) : Option Reading := do
  let bytes := blob.data.toList
  let header ← header? bytes
  if header.Valid bytes.length then
    let reserved ← reserved? (block bytes header.reservedOffset (header.structureOffset - header.reservedOffset))
    let tokens ← tokens? (block bytes header.stringsOffset header.stringsSize)
      (block bytes header.structureOffset header.structureSize)
    let tree ← Tree.ofTokens? tokens
    return ⟨header.bootHart, reserved, tree⟩
  else none

end RvBoard.Fdt
