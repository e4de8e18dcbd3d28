import RvBoard.Proofs.Memory.ByteViews

/-!
# Loading of segments

An image is loaded byte by byte, as far as memory can tell: each segment of the table writes its part of the file from its
address on and zeros behind it, and where two of them write the later one wins. A load that fails has made the first of
these writes, and no others.
-/

set_option autoImplicit false

namespace RvBoard

open Bytes (listOf littleEndian)

namespace Bus

def cellAt? (bus : Bus) (address : UInt64) : Option Cell :=
  (bus.find? address).map fun window => (window.device, offset window address)

def inRow (address : UInt64) : List UInt8 → List (UInt64 × UInt8)
  | [] => []
  | byte :: rest => (address, byte) :: inRow (address + 1) rest

def rewrite (bus : Bus) (cell : Cell) (writes : List (UInt64 × UInt8)) (first : UInt8) : UInt8 :=
  writes.foldl (fun byte write => if bus.cellAt? write.1 = some cell then write.2 else byte) first

-- The memories of a bus after some writes, each to an address where there is something.
structure Overwritten (bus : Bus) (writes : List (UInt64 × UInt8)) (next : Bus) : Prop where
  windows : next.windows = bus.windows
  mapped : ∀ write ∈ writes, bus.cellAt? write.1 ≠ none
  bytes : ∀ cell, next.byte? cell = (bus.byte? cell).map (bus.rewrite cell writes)

structure Ordered (bus : Bus) : Prop where
  sorted : bus.Sorted
  stepped : bus.Stepped

section Rows

variable {bus middle next : Bus} {first second : List (UInt64 × UInt8)} {address : UInt64} {bytes : List UInt8}
  {cell : Cell}

theorem cellAt_congr (same : next.windows = bus.windows) (address : UInt64) : next.cellAt? address = bus.cellAt? address := by
  unfold cellAt? find?
  rw [same]

theorem SameMemory.overwritten (same : SameMemory bus next) : Overwritten bus [] next := by
  refine ⟨same.windows, fun _ member => absurd member List.not_mem_nil, fun cell => ?_⟩
  rw [same.laid.bytes, lastByte_nil]
  exact Option.map_id'.symm

theorem Overwritten.refl (bus : Bus) : Overwritten bus [] bus :=
  (SameMemory.refl bus).overwritten

theorem Overwritten.trans (earlier : Overwritten bus first middle) (later : Overwritten middle second next) :
    Overwritten bus (first ++ second) next := by
  refine ⟨later.windows.trans earlier.windows, fun write member => ?_, fun cell => ?_⟩
  · rcases List.mem_append.mp member with before | after
    · exact earlier.mapped write before
    · exact cellAt_congr earlier.windows write.1 ▸ later.mapped write after
  rw [later.bytes, earlier.bytes, Option.map_map]
  congr 1
  funext byte
  simp only [Function.comp, rewrite, cellAt_congr earlier.windows, List.foldl_append]

theorem Ordered.later (ordered : bus.Ordered) (overwritten : Overwritten bus first next) : next.Ordered := by
  obtain ⟨sorted, stepped⟩ := ordered
  unfold Sorted at sorted
  unfold Stepped at stepped
  rw [← overwritten.windows] at sorted stepped
  exact ⟨sorted, stepped⟩

theorem rewrite_apart {writes : List (UInt64 × UInt8)} (apart : ∀ write ∈ writes, bus.cellAt? write.1 ≠ some cell)
    (byte : UInt8) : bus.rewrite cell writes byte = byte := by
  induction writes generalizing byte with
  | nil => rfl
  | cons write rest ih =>
    obtain ⟨here, others⟩ := List.forall_mem_cons.mp apart
    rw [rewrite, List.foldl_cons, if_neg here]
    exact ih others byte

theorem Overwritten.apart {writes : List (UInt64 × UInt8)} (overwritten : Overwritten bus writes next)
    (apart : ∀ write ∈ writes, bus.cellAt? write.1 ≠ some cell) : next.byte? cell = bus.byte? cell := by
  rw [overwritten.bytes, funext (rewrite_apart apart)]
  exact Option.map_id'

theorem mem_inRow {write : UInt64 × UInt8} (member : write ∈ inRow address bytes)
    (bound : address.toNat + bytes.length ≤ UInt64.size) :
    address.toNat ≤ write.1.toNat ∧ write.1.toNat < address.toNat + bytes.length := by
  induction bytes generalizing address with
  | nil => cases member
  | cons byte rest ih =>
    rw [List.length_cons] at bound ⊢
    rcases List.mem_cons.mp member with rfl | later
    · exact ⟨Nat.le_refl _, by dsimp only; omega⟩
    · cases rest with
      | nil => cases later
      | cons second rest =>
        have next : (address + 1).toNat = address.toNat + 1 := by
          rw [UInt64.toNat_add]
          exact Nat.mod_eq_of_lt (by rw [List.length_cons] at bound; change address.toNat + 1 < UInt64.size; omega)
        have places := ih later (by rw [next]; omega)
        rw [next] at places
        omega

theorem byte_cons (id : DeviceId) (place : Nat) (byte : UInt8) (rest : List UInt8) :
    (⟨(id, place), byte :: rest⟩ : Put).byte? cell =
      if some (id, place) = some cell then some byte else (⟨(id, place + 1), rest⟩ : Put).byte? cell := by
  obtain ⟨other, i⟩ := cell
  simp only [Put.byte?, Option.some.injEq, Prod.mk.injEq]
  by_cases here : id = other
  · by_cases first : place = i
    · simp [here, first]
    · by_cases behind : place + 1 ≤ i
      · have position : i - place = i - (place + 1) + 1 := by omega
        rw [if_pos ⟨here, by omega⟩, if_neg (fun both => first both.2), if_pos ⟨here, behind⟩, position,
          List.getElem?_cons_succ]
      · rw [if_neg (by omega), if_neg (fun both => first both.2), if_neg (fun both => behind both.2)]
  · simp [here]

theorem rewrite_inRow {id : DeviceId} {place : Nat}
    (row : ∀ i < bytes.length, bus.cellAt? (address + UInt64.ofNat i) = some (id, place + i)) (byte : UInt8) :
    bus.rewrite cell (inRow address bytes) byte = ((⟨(id, place), bytes⟩ : Put).byte? cell).getD byte := by
  induction bytes generalizing address place byte with
  | nil =>
    have nothing : (⟨(id, place), []⟩ : Put).byte? cell = none :=
      Put.byte_outside fun inside => Nat.not_lt.mpr inside.2.1 inside.2.2
    rw [nothing]
    rfl
  | cons head rest ih =>
    have here : bus.cellAt? address = some (id, place) := by
      have first := row 0 (Nat.succ_pos _)
      rwa [show UInt64.ofNat 0 = 0 from rfl, UInt64.add_zero] at first
    have others : ∀ i < rest.length, bus.cellAt? (address + 1 + UInt64.ofNat i) = some (id, place + 1 + i) := by
      intro i inside
      have next := row (i + 1) (Nat.succ_lt_succ inside)
      have sum : address + UInt64.ofNat (i + 1) = address + 1 + UInt64.ofNat i := by
        rw [UInt64.ofNat_add, UInt64.add_comm (UInt64.ofNat i), UInt64.add_assoc]
        rfl
      rwa [sum, Nat.add_comm i, ← Nat.add_assoc] at next
    rw [inRow, rewrite, List.foldl_cons, here, byte_cons]
    refine (ih others _).trans ?_
    by_cases same : some (id, place) = some cell
    · have outside : (⟨(id, place + 1), rest⟩ : Put).byte? cell = none := by
        cases same
        exact Put.byte_outside fun inside => absurd inside.2.1 (by simp)
      rw [if_pos same, if_pos same, outside]
      rfl
    · rw [if_neg same, if_neg same]

theorem cellAt_inside (ordered : bus.Ordered) {n : Nat} {window : Window} (found : bus.window? address n = some window)
    {other : UInt64} (above : address.toNat ≤ other.toNat) (below : other.toNat < address.toNat + n) :
    bus.cellAt? other = some (window.device, offset window other) := by
  have part := window_part ordered.sorted ordered.stepped found Nat.one_pos (UInt64.le_iff_toNat_le.mpr above) below
  rw [cellAt?, (Option.filter_eq_some_iff.mp part).1]
  rfl

theorem cellAt_along (ordered : bus.Ordered) {n : Nat} {window : Window} (found : bus.window? address n = some window)
    {i : Nat} (inside : i < n) :
    bus.cellAt? (address + UInt64.ofNat i) = some (window.device, offset window address + i) := by
  obtain ⟨_, low, high⟩ := window_spec found
  have top := window.stop.toNat_lt_size
  have small : (UInt64.ofNat i).toNat = i := UInt64.toNat_ofNat_of_lt' (show i < UInt64.size by omega)
  have place : (address + UInt64.ofNat i).toNat = address.toNat + i := by
    rw [UInt64.toNat_add, small]
    exact Nat.mod_eq_of_lt (show _ < UInt64.size by omega)
  have bound := UInt64.le_iff_toNat_le.mp low
  have above : window.start ≤ address + UInt64.ofNat i := UInt64.le_iff_toNat_le.mpr (by omega)
  have behind : offset window (address + UInt64.ofNat i) = offset window address + i := by
    rw [offset, offset, UInt64.toNat_sub_of_le _ _ above, UInt64.toNat_sub_of_le _ _ low, place]
    omega
  rw [cellAt_inside ordered found (by omega) (by omega), behind]

end Rows

theorem writeBytes_overwrites {bus next : Bus} {address : UInt64} {bytes : ByteArray} (ordered : bus.Ordered)
    (done : writeBytes address bytes bus = .ok () next) :
    Overwritten bus (inRow address (listOf bytes)) next ∧ (0 < bytes.size → address.toNat + bytes.size < UInt64.size) := by
  have laid := writeBytes_laid done
  have length : (listOf bytes).length = bytes.size := Bytes.length_listOf bytes
  rcases Nat.eq_zero_or_pos bytes.size with empty | positive
  · have none : listOf bytes = [] := List.length_eq_zero_iff.mp (length.trans empty)
    have nothing : bytes.isEmpty = true := beq_iff_eq.mpr empty
    rw [writeBytes, if_pos nothing] at done
    cases done
    rw [none]
    exact ⟨.refl bus, fun some => absurd empty (Nat.ne_of_gt some)⟩
  · cases found : bus.window? address bytes.size with
    | none =>
      have full : ¬ bytes.isEmpty = true := fun nothing => Nat.ne_of_gt positive (beq_iff_eq.mp nothing)
      rw [writeBytes, if_neg full, found] at done
      cases done
    | some window =>
      have top := window.stop.toNat_lt_size
      have high := (window_spec found).2.2
      refine ⟨⟨laid.windows, fun write member => ?_, fun cell => ?_⟩, fun _ => Nat.lt_of_le_of_lt high top⟩
      · obtain ⟨above, below⟩ := mem_inRow member (by rw [length]; omega)
        rw [cellAt_inside ordered found above (length ▸ below)]
        exact Option.some_ne_none _
      rw [laid.bytes, lastByte?, puts, length, found]
      congr 1
      funext byte
      rw [rewrite_inRow fun i inside => cellAt_along ordered found (length ▸ inside)]
      simp only [List.findSome?_cons, List.findSome?_nil]
      cases (⟨(window.device, offset window address), listOf bytes⟩ : Put).byte? cell <;> rfl

end Bus

open Bus (inRow Overwritten Ordered)

namespace Segment

-- Only some segments are loaded, the others describe the image.
def Loads (segment : Segment) : Prop :=
  segment.type = .ok .load

instance : DecidablePred Loads := fun segment =>
  match shown : segment.type with
  | .ok .load => isTrue shown
  | .ok .other | .error _ => isFalse fun loads => nomatch shown.symm.trans loads

def behind (segment : Segment) : Nat :=
  segment.memSize.toNat - segment.fileSize.toNat

def copies (image : ByteArray) (segment : Segment) : List (UInt64 × UInt8) :=
  inRow segment.paddr (((listOf image).drop segment.offset.toNat).take segment.fileSize.toNat)

def clears (segment : Segment) : List (UInt64 × UInt8) :=
  inRow (segment.paddr + segment.fileSize) (List.replicate segment.behind 0)

theorem toNat_fileEnd (segment : Segment) (fits : segment.paddr.toNat + segment.fileSize.toNat < UInt64.size) :
    (segment.paddr + segment.fileSize).toNat = segment.paddr.toNat + segment.fileSize.toNat := by
  rw [UInt64.toNat_add]
  exact Nat.mod_eq_of_lt fits

def writes (image : ByteArray) (segment : Segment) : List (UInt64 × UInt8) :=
  if segment.Loads then segment.copies image ++ segment.clears else []

theorem writes_loaded {image : ByteArray} {segment : Segment} (loads : segment.Loads) :
    segment.writes image = segment.copies image ++ segment.clears :=
  if_pos loads

theorem writes_left {image : ByteArray} {segment : Segment} (left : ¬ segment.Loads) : segment.writes image = [] :=
  if_neg left

-- The bytes of a segment are bytes of the file, and no sum of addresses and sizes is too large for a word.
structure Fits (image : ByteArray) (segment : Segment) : Prop where
  inFile : segment.offset.toNat + segment.fileSize.toNat ≤ image.size
  inMemory : segment.paddr.toNat + segment.fileSize.toNat + segment.behind < UInt64.size

def Covers (segment : Segment) (address : UInt64) : Prop :=
  segment.Loads ∧ segment.paddr.toNat ≤ address.toNat ∧
    address.toNat < segment.paddr.toNat + segment.fileSize.toNat + segment.behind

instance (segment : Segment) (address : UInt64) : Decidable (segment.Covers address) :=
  inferInstanceAs (Decidable (_ ∧ _ ∧ _))

end Segment

namespace Image

section Segments

variable {bus next : Bus} {image : ByteArray} {segment : Segment} {address : UInt64}

theorem place_overwrites {bytes : ByteArray} (ordered : bus.Ordered) (done : place address bytes bus = .ok () next) :
    Overwritten bus (inRow address (listOf bytes)) next ∧ (0 < bytes.size → address.toNat + bytes.size < UInt64.size) := by
  unfold place at done
  split at done
  · next written =>
    cases done
    exact Bus.writeBytes_overwrites ordered written
  · cases done

theorem place_fails {bytes : ByteArray} {error : LoadError} (failed : place address bytes bus = .error error next) :
    Overwritten bus [] next := by
  unfold place at failed
  split at failed
  · cases failed
  · next written =>
    cases failed
    exact (Bus.writeBytes_failed_same written).overwritten

theorem placeZeros_overwrites {n : Nat} (ordered : bus.Ordered) (done : placeZeros address n bus = .ok () next) :
    Overwritten bus (inRow address (List.replicate n 0)) next ∧ (0 < n → address.toNat + n < UInt64.size) := by
  unfold placeZeros at done
  by_cases nothing : n = 0
  · rw [if_pos nothing] at done
    cases done
    subst nothing
    exact ⟨.refl bus, fun some => absurd some (Nat.lt_irrefl 0)⟩
  · rw [if_neg nothing] at done
    have placed := place_overwrites ordered done
    rwa [Bytes.size_zeros, Bytes.listOf_zeros] at placed

theorem placeZeros_fails {n : Nat} {error : LoadError} (failed : placeZeros address n bus = .error error next) :
    Overwritten bus [] next := by
  unfold placeZeros at failed
  by_cases nothing : n = 0
  · rw [if_pos nothing] at failed
    cases failed
  · rw [if_neg nothing] at failed
    exact place_fails failed

theorem contents_placed {contents : ByteArray} (held : segment.contents? image = some contents) (ordered : bus.Ordered)
    (done : place segment.paddr contents bus = .ok () next) :
    Overwritten bus (segment.copies image) next ∧ segment.offset.toNat + segment.fileSize.toNat ≤ image.size ∧
      segment.paddr.toNat + segment.fileSize.toNat < UInt64.size := by
  unfold Segment.contents? Bytes.slice? at held
  split at held
  · next holds =>
    have inFile : segment.offset.toNat + segment.fileSize.toNat ≤ image.size := of_decide_eq_true holds
    cases held
    obtain ⟨copied, below⟩ := place_overwrites ordered done
    have size : (image.extract segment.offset.toNat (segment.offset.toNat + segment.fileSize.toNat)).size =
        segment.fileSize.toNat := by
      rw [ByteArray.size_extract]
      omega
    rw [Bytes.listOf_extract, Nat.add_sub_cancel_left] at copied
    rw [size] at below
    refine ⟨copied, inFile, ?_⟩
    rcases Nat.eq_zero_or_pos segment.fileSize.toNat with empty | some
    · rw [empty]
      exact segment.paddr.toNat_lt_size
    · exact below some
  · cases held

theorem zeros_toNat (segment : Segment) : segment.zeros.toNat = segment.behind := by
  unfold Segment.zeros Segment.behind
  by_cases more : segment.fileSize < segment.memSize
  · rw [if_pos more, UInt64.toNat_sub_of_le _ _ (UInt64.le_of_lt more)]
  · rw [if_neg more]
    have less := UInt64.le_iff_toNat_le.mp (UInt64.not_lt.mp more)
    change 0 = _
    omega

theorem loadSegment_loaded (loads : segment.Loads) :
    loadSegment image segment =
      match segment.contents? image with
      | none => throw (.elf "segment exceeds file")
      | some contents => (do
        place segment.paddr contents
        placeZeros (segment.paddr + segment.fileSize) segment.zeros.toNat) := by
  unfold loadSegment
  rewrite [loads]
  rfl

theorem loadSegment_left (left : ¬ segment.Loads) (bus : Bus) :
    loadSegment image segment bus = .ok () bus ∨ ∃ message, loadSegment image segment bus = .error (.elf message) bus := by
  unfold loadSegment
  cases kind : segment.type with
  | error message => exact .inr ⟨message, rfl⟩
  | ok type =>
    cases type with
    | load => exact absurd kind left
    | other => exact .inl rfl

theorem loadSegment_overwrites (ordered : bus.Ordered) (done : loadSegment image segment bus = .ok () next) :
    Overwritten bus (segment.writes image) next ∧ (segment.Loads → segment.Fits image) := by
  by_cases loads : segment.Loads
  · rw [loadSegment_loaded loads] at done
    rw [Segment.writes_loaded loads]
    cases held : segment.contents? image with
    | none =>
      rw [held] at done
      cases done
    | some contents =>
      rw [held] at done
      obtain ⟨_, middle, first, second⟩ := bind_ok.mp done
      obtain ⟨copied, inFile, below⟩ := contents_placed held ordered first
      rw [zeros_toNat] at second
      obtain ⟨cleared, inMemory⟩ := placeZeros_overwrites (ordered.later copied) second
      refine ⟨copied.trans cleared, fun _ => ⟨inFile, ?_⟩⟩
      rw [segment.toNat_fileEnd below] at inMemory
      rcases Nat.eq_zero_or_pos segment.behind with none | some
      · rw [none]
        exact below
      · exact inMemory some
  · rw [Segment.writes_left loads]
    rcases loadSegment_left loads bus with same | ⟨message, same⟩
    · cases done.symm.trans same
      exact ⟨.refl bus, fun loaded => absurd loaded loads⟩
    · cases done.symm.trans same

theorem mem_copies {write : UInt64 × UInt8} (loads : segment.Loads) (member : write ∈ segment.copies image)
    (below : segment.paddr.toNat + segment.fileSize.toNat < UInt64.size) : segment.Covers write.1 := by
  have length : (((listOf image).drop segment.offset.toNat).take segment.fileSize.toNat).length ≤ segment.fileSize.toNat :=
    List.length_take_le _ _
  obtain ⟨low, high⟩ := Bus.mem_inRow member (by omega)
  exact ⟨loads, low, by omega⟩

theorem mem_writes {write : UInt64 × UInt8} (fits : segment.Loads → segment.Fits image)
    (member : write ∈ segment.writes image) : segment.Covers write.1 := by
  by_cases loads : segment.Loads
  · rw [Segment.writes_loaded loads] at member
    have inMemory := (fits loads).inMemory
    rcases List.mem_append.mp member with copied | cleared
    · exact mem_copies loads copied (by omega)
    · have sum := segment.toNat_fileEnd (by omega)
      obtain ⟨low, high⟩ := Bus.mem_inRow cleared (by rw [List.length_replicate, sum]; omega)
      rw [sum] at low high
      rw [List.length_replicate] at high
      exact ⟨loads, by omega, high⟩
  · rw [Segment.writes_left loads] at member
    cases member

theorem loadSegment_fails {error : LoadError} (ordered : bus.Ordered)
    (failed : loadSegment image segment bus = .error error next) :
    ∃ made, made <+: segment.writes image ∧ Overwritten bus made next ∧ ∀ write ∈ made, segment.Covers write.1 := by
  have nothing (same : Overwritten bus [] next) :
      ∃ made, made <+: segment.writes image ∧ Overwritten bus made next ∧ ∀ write ∈ made, segment.Covers write.1 :=
    ⟨[], List.nil_prefix, same, fun _ member => absurd member List.not_mem_nil⟩
  by_cases loads : segment.Loads
  · rw [loadSegment_loaded loads] at failed
    cases held : segment.contents? image with
    | none =>
      rw [held] at failed
      cases failed
      exact nothing (.refl _)
    | some contents =>
      rw [held] at failed
      rcases bind_error.mp failed with unplaced | ⟨_, middle, first, second⟩
      · exact nothing (place_fails unplaced)
      · obtain ⟨copied, inFile, below⟩ := contents_placed held ordered first
        have made := copied.trans (placeZeros_fails second)
        rw [List.append_nil] at made
        refine ⟨segment.copies image, ?_, made, fun write member => mem_copies loads member below⟩
        rw [Segment.writes_loaded loads]
        exact List.prefix_append _ _
  · rcases loadSegment_left loads bus with same | ⟨message, same⟩
    · cases failed.symm.trans same
    · cases failed.symm.trans same
      exact nothing (.refl _)

theorem loadSegments_overwrites {segments : List Segment} (ordered : bus.Ordered)
    (done : loadSegments image segments bus = .ok () next) :
    Overwritten bus (segments.flatMap (Segment.writes image)) next ∧
      ∀ segment ∈ segments, segment.Loads → segment.Fits image := by
  induction segments generalizing bus with
  | nil =>
    cases done
    exact ⟨.refl _, fun _ member => absurd member List.not_mem_nil⟩
  | cons segment rest ih =>
    obtain ⟨_, middle, first, second⟩ := bind_ok.mp done
    obtain ⟨written, fits⟩ := loadSegment_overwrites ordered first
    obtain ⟨later, others⟩ := ih (ordered.later written) second
    exact ⟨written.trans later, List.forall_mem_cons.mpr ⟨fits, others⟩⟩

theorem loadSegments_fails {segments : List Segment} {error : LoadError} (ordered : bus.Ordered)
    (failed : loadSegments image segments bus = .error error next) :
    ∃ made, made <+: segments.flatMap (Segment.writes image) ∧ Overwritten bus made next ∧
      ∀ write ∈ made, ∃ segment ∈ segments, segment.Covers write.1 := by
  induction segments generalizing bus with
  | nil => cases failed
  | cons segment rest ih =>
    rcases bind_error.mp failed with first | ⟨_, middle, first, second⟩
    · obtain ⟨made, front, overwritten, covered⟩ := loadSegment_fails ordered first
      refine ⟨made, front.trans (List.prefix_append _ _), overwritten, fun write member => ?_⟩
      exact ⟨segment, List.mem_cons_self, covered write member⟩
    · obtain ⟨written, fits⟩ := loadSegment_overwrites ordered first
      obtain ⟨made, front, overwritten, covered⟩ := ih (ordered.later written) second
      refine ⟨segment.writes image ++ made, ?_, written.trans overwritten, fun write member => ?_⟩
      · exact (List.prefix_append_right_inj _).mpr front
      · rcases List.mem_append.mp member with here | later
        · exact ⟨segment, List.mem_cons_self, mem_writes fits here⟩
        · obtain ⟨other, among, covers⟩ := covered write later
          exact ⟨other, List.mem_cons_of_mem _ among, covers⟩

end Segments

section Readers

variable (reader : ElfReader) (image : ByteArray)

-- The segments that a reader finds in an image.
def segmentsOf : List Segment :=
  match reader image with
  | .ok file => file.segments
  | .error _ => []

variable {reader image} {bus next : Bus}

theorem loadElf_ok {entry : UInt64} (done : loadElf reader image bus = .ok entry next) :
    loadSegments image (segmentsOf reader image) bus = .ok () next := by
  unfold loadElf at done
  unfold segmentsOf
  cases read : reader image with
  | error message =>
    rw [read] at done
    cases done
  | ok file =>
    rw [read] at done
    obtain ⟨_, middle, loaded, last⟩ := bind_ok.mp (unless_ok.mp done).2
    cases last
    exact loaded

theorem loadElf_error {error : LoadError} (failed : loadElf reader image bus = .error error next) :
    next = bus ∨ loadSegments image (segmentsOf reader image) bus = .error error next := by
  unfold loadElf at failed
  unfold segmentsOf
  cases read : reader image with
  | error message =>
    rw [read] at failed
    cases failed
    exact .inl rfl
  | ok file =>
    rw [read] at failed
    rcases unless_error.mp failed with ⟨_, _, same⟩ | ⟨_, rest⟩
    · exact .inl same
    · rcases bind_error.mp rest with unloaded | ⟨_, middle, loaded, last⟩
      · exact .inr unloaded
      · cases last

end Readers

/-- Whatever reads the headers of an image: one that is loaded overwrites memory with its segments in order, and each of
them fits; one that is not loaded has changed no byte outside the memory of its segments. -/
theorem segments_overwrite_memory {bus : Bus} (bound : bus.Bound) (reader : ElfReader) (image : ByteArray) :
    (∀ entry next, loadElf reader image bus = .ok entry next →
      Overwritten bus ((segmentsOf reader image).flatMap (Segment.writes image)) next ∧
        ∀ segment ∈ segmentsOf reader image, segment.Loads → segment.Fits image) ∧
    ∀ error next, loadElf reader image bus = .error error next →
      ∀ cell,
        (∀ address, bus.cellAt? address = some cell → ∀ segment ∈ segmentsOf reader image, ¬ segment.Covers address) →
          next.byte? cell = bus.byte? cell := by
  have ordered : bus.Ordered := ⟨bound.sorted, bound.stepped⟩
  refine ⟨fun entry next done => loadSegments_overwrites ordered (loadElf_ok done), fun error next failed cell outside => ?_⟩
  rcases loadElf_error failed with rfl | unloaded
  · rfl
  · obtain ⟨made, _, overwritten, covered⟩ := loadSegments_fails ordered unloaded
    refine overwritten.apart fun write member here => ?_
    obtain ⟨segment, among, covers⟩ := covered write member
    exact outside write.1 here segment among covers

def loadRow (offset paddr fileSize memSize : UInt64) : List UInt8 :=
  littleEndian 8 1 ++ littleEndian 8 offset ++ littleEndian 8 paddr ++ littleEndian 8 paddr ++
    littleEndian 8 fileSize ++ littleEndian 8 memSize ++ littleEndian 8 1

def overlapping (rows : UInt64) : ByteArray :=
  ⟨(Elf.magic ++ [2, 1, 1, 0] ++ littleEndian 8 0 ++ littleEndian 2 2 ++ littleEndian 2 243 ++ littleEndian 4 1 ++
    littleEndian 8 0x1000 ++ littleEndian 8 64 ++ littleEndian 8 0 ++ littleEndian 4 0 ++ littleEndian 2 64 ++
    littleEndian 2 56 ++ littleEndian 2 rows ++ littleEndian 6 0 ++
    loadRow 0 0x1000 8 8 ++ loadRow 1 0x1002 1 3 ++ loadRow 0 0x2000 1 1).toArray⟩

theorem segments_overwrite_memory_overlapping :
    (∃ next, loadElf Elf.read (overlapping 2) Bus.sixteen = .ok 0x1000 next ∧
      (List.range 8).map (fun i => next.byte? (0, i)) = [0x7f, 0x45, 0x45, 0, 0, 1, 1, 0].map some) ∧
    ∃ error next, loadElf Elf.read (overlapping 3) Bus.sixteen = .error error next ∧
      next.byte? (0, 8) = Bus.sixteen.byte? (0, 8) := by
  have done : loadElf Elf.read (overlapping 2) Bus.sixteen = .ok 0x1000 _ := value_ok (by decide +kernel)
  have failed : value? (loadElf Elf.read (overlapping 3) Bus.sixteen) = none := by decide +kernel
  have written := ((segments_overwrite_memory Bus.sixteen_bound Elf.read (overlapping 2)).1 _ _ done).1.bytes
  refine ⟨⟨_, done, ?_⟩, ?_⟩
  · rw [funext fun i => written (0, i)]
    decide +kernel
  · cases run : loadElf Elf.read (overlapping 3) Bus.sixteen with
    | ok entry next =>
      rw [run] at failed
      cases failed
    | error error next =>
      refine ⟨error, next, rfl, (segments_overwrite_memory Bus.sixteen_bound Elf.read (overlapping 3)).2 error next run _ ?_⟩
      intro address found
      obtain ⟨window, searched, cell⟩ := Option.map_eq_some_iff.mp found
      cases Array.mem_singleton.mp (Bus.search_mem (Option.filter_eq_some_iff.mp searched).1)
      have place : address - 0x1000 = 8 := UInt64.toNat_inj.mp (Prod.mk.inj cell).2
      rw [UInt64.sub_eq_iff_eq_add.mp place]
      decide +kernel

end Image

end RvBoard
