import RvBoard.Proofs.NineP.Entries
import RvBoard.Proofs.NineP.Failures
import RvBoard.Proofs.NineP.MessageSizes
import RvBoard.Proofs.NineP.Renaming
import RvBoard.Proofs.Share.Directories

/-!
# Listings

A client lists a directory page by page, each time from where the last entry says. As long as every page has room for
one entry, it receives the whole directory, in order and once.
-/

set_option autoImplicit false

namespace RvBoard.NineP.Server

open HostShare (Shows Looked ShownAs textEntries kindOf)

structure Row where
  name : String
  place : Path
  kind : FileKind
  type : FileKind

def Row.size (row : Row) : Nat :=
  Qid.size + 8 + 1 + 2 + row.name.utf8ByteSize

def rows (path : Path) (above : FileKind) (shown : List (String × FileKind)) : List Row :=
  ⟨".", path, .directory, .directory⟩ :: ⟨"..", path.parent, above, .directory⟩ ::
    shown.map fun entry => ⟨entry.1, path.join entry.1, entry.2, entry.2⟩

theorem rows_length (path : Path) (above : FileKind) (shown : List (String × FileKind)) :
    (rows path above shown).length = shown.length + 2 := by
  simp [rows]

def shownOf (entries : List (FileName × Node)) : List (String × FileKind) :=
  (textEntries entries).map fun entry => (entry.1, kindOf entry.2)

theorem shownOf_sorted {entries : List (FileName × Node)} {shown : List (String × FileKind)}
    (sorted : shown.Pairwise fun a b => a.1 < b.1)
    (same : shown.Perm ((entries.filterMap HostShare.named?).map fun entry => (entry.1, kindOf entry.2))) :
    shownOf entries = shown := by
  obtain ⟨ordered, perm⟩ := HostShare.textEntries_sorted entries
  have reordered : (shownOf entries).Perm shown := (perm.map _).trans same.symm
  have names : (shown.map Prod.fst).Nodup := by
    refine List.pairwise_map.mpr (sorted.imp fun less same => ?_)
    rw [same] at less
    exact String.lt_irrefl _ less
  have inOrder : (shownOf entries).Pairwise fun a b => a.1 ≤ b.1 := List.pairwise_map.mpr ordered
  refine List.Perm.eq_of_pairwise ?_ inOrder (sorted.imp fun less => ?_) reordered
  · intro a b here there less more
    exact List.inj_on_of_nodup_map names (reordered.mem_iff.mp here) there (String.le_antisymm less more)
  · exact String.not_lt.mp fun more => String.lt_asymm less more

structure Stands (share : HostShare) (row : Row) (entry : Listed) : Prop where
  name : entry.name = row.name
  type : entry.kind = row.type
  kind : entry.qid.kind = row.kind.qidKind
  version : entry.qid.version = 0
  number : share.inodes.lookup row.place.names = some entry.qid.path

theorem listing_runs (server : Server HostShare) {path : Path} {entries : List (FileName × Node)} {readOnly : Bool}
    {node : Node} (directory : Shows server.fs path (.directory entries readOnly))
    (parent : Shows server.fs path.parent node) :
    ∃ listed share, listing path server = .ok listed { server with fs := share } ∧ Looked server.fs share ∧
      List.Forall₂ (Stands share) (rows path (kindOf node) (shownOf entries)) listed := by
  obtain ⟨here, first, asked, isDirectory, looked, number⟩ := HostShare.getattr_runs directory
  obtain ⟨above, second, askedAbove, kind, again, numberAbove⟩ := HostShare.getattr_runs (looked.shows parent)
  obtain ⟨found, share, read, onward, each⟩ := HostShare.readDir_runs ((looked.trans again).shows directory)
  have firstly : onFs (FileSystem.getattr path) server = .ok here { server with fs := first } := onFs_ok asked
  have secondly : onFs (FileSystem.getattr path.parent) { server with fs := first } =
      .ok above { server with fs := second } := onFs_ok askedAbove
  have lastly : onFs (FileSystem.readDir path) { server with fs := second } = .ok found { server with fs := share } :=
    onFs_ok read
  rw [listing, bind_of_ok firstly, bind_of_ok secondly, bind_of_ok lastly]
  refine ⟨_, share, rfl, (looked.trans again).trans onward, .cons ?_ (.cons ?_ ?_)⟩
  · exact ⟨rfl, rfl, congrArg FileKind.qidKind isDirectory, rfl, onward.lookup (again.lookup number)⟩
  · exact ⟨rfl, rfl, congrArg FileKind.qidKind kind, rfl, onward.lookup numberAbove⟩
  · rw [shownOf, List.map_map, List.forall₂_map_left_iff, List.forall₂_map_right_iff]
    exact each.imp fun entry shown same => ⟨same.name, same.kind, congrArg FileKind.qidKind same.kind, rfl, same.number⟩

structure Offers (server : Server HostShare) (fid : FidNumber) (path : Path) (above : FileKind)
    (shown : List (String × FileKind)) : Prop where
  bound : ∃ isOpen, server.fids.lookup fid = some ⟨path, isOpen⟩
  directory : ∃ entries readOnly, Shows server.fs path (.directory entries readOnly) ∧
    shown.Perm ((entries.filterMap HostShare.named?).map fun entry => (entry.1, kindOf entry.2))
  parent : ∃ node, Shows server.fs path.parent node ∧ kindOf node = above

theorem readdir_runs {server : Server HostShare} {fid : FidNumber} {path : Path} {above : FileKind}
    {shown : List (String × FileKind)} (sorted : shown.Pairwise fun a b => a.1 < b.1)
    (offers : Offers server fid path above shown) (offset : UInt64) (count space : UInt32) :
    ∃ listed share, List.Forall₂ (Stands share) (rows path above shown) listed ∧
      let page := packed offset.toNat (min count.toNat (server.ioLimit space)) (listed.drop offset.toNat)
      readdir fid offset count space server = .ok (.u32 (UInt32.ofNat page.2) :: page.1) { server with fs := share } := by
  obtain ⟨isOpen, bound⟩ := offers.bound
  obtain ⟨entries, readOnly, directory, same⟩ := offers.directory
  obtain ⟨node, parent, rfl⟩ := offers.parent
  obtain rfl := shownOf_sorted sorted same
  obtain ⟨here, first, asked, isDirectory, looked, _⟩ := HostShare.getattr_runs directory
  obtain ⟨listed, share, run, _, each⟩ :=
    listing_runs { server with fs := first } (looked.shows directory) (looked.shows parent)
  refine ⟨listed, share, each, ?_⟩
  have kind : here.kind = .directory := isDirectory
  have shows : onFs (FileSystem.getattr path) server = .ok here { server with fs := first } := onFs_ok asked
  have reached : directoryPath fid server = .ok path { server with fs := first } := by
    rw [directoryPath, bind_of_ok (lookup_run bound), bind_of_ok shows]
    dsimp only
    rw [if_pos kind]
    rfl
  rw [readdir, bind_of_ok (get_run server), bind_of_ok reached, bind_of_ok run]
  rfl

def Right (share : HostShare) (rows : List Row) (entry : Received) : Prop :=
  ∃ row, rows[entry.offset.toNat - 1]? = some row ∧ entry.name = row.name ∧ entry.type = row.type.entryType ∧
    entry.qid.kind = row.kind.qidKind ∧ entry.qid.version = 0 ∧ share.inodes.lookup row.place.names = some entry.qid.path

theorem row_of_listed {share : HostShare} {rows : List Row} {listed : List Listed}
    (each : List.Forall₂ (Stands share) rows listed) {k : Nat} {entry : Listed} (found : listed[k]? = some entry) :
    ∃ row, rows[k]? = some row ∧ Stands share row entry := by
  induction each generalizing k with
  | nil => cases found
  | @cons row other rows listed stands _ ih =>
    cases k with
    | zero =>
      cases found
      exact ⟨row, rfl, stands⟩
    | succ k => exact ih found

structure Continues (share : HostShare) (rows : List Row) (offset : Nat) (page : List Received) : Prop where
  offsets : page.map (·.offset.toNat) = List.range' (offset + 1) page.length
  within : offset + page.length ≤ rows.length
  ends : page = [] → offset = rows.length
  right : ∀ entry ∈ page, Right share rows entry

theorem received_continues {share : HostShare} {rows : List Row} {listed page : List Listed} {offset room : Nat}
    (each : List.Forall₂ (Stands share) rows listed) (few : rows.length < 2 ^ 64) (within : offset ≤ rows.length)
    (roomy : ∀ row ∈ rows, row.size ≤ room) (first : page <+: listed.drop offset)
    (some : ∀ entry ∈ (listed.drop offset).head?, entry.size ≤ room → page ≠ []) :
    Continues share rows offset (received offset page) := by
  have same : rows.length = listed.length := each.length_eq
  have short := first.length_le
  rw [List.length_drop] at short
  refine ⟨?_, ?_, ?_, ?_⟩
  · rw [received_offsets (by omega), received_length]
  · rw [received_length]
    omega
  · intro none
    have empty : page = [] := by
      rw [← List.length_eq_zero_iff, ← received_length offset, none]
      rfl
    by_contra before
    have inside : offset < listed.length := by omega
    have next : listed[offset]? = .some listed[offset] := List.getElem?_eq_getElem inside
    obtain ⟨row, member, stands⟩ := row_of_listed each next
    have fits : listed[offset].size ≤ room := by
      rw [Listed.size, stands.name]
      exact roomy row (List.mem_of_getElem? member)
    exact some _ (by rw [List.head?_drop, next]; rfl) fits empty
  · intro entry member
    obtain ⟨k, other, found, rfl⟩ := mem_received member
    have here : listed[offset + k]? = .some other := by
      rw [← List.getElem?_drop]
      obtain ⟨back, whole⟩ := first
      rw [← whole, List.getElem?_append_left (List.getElem?_eq_some_iff.mp found).1, found]
    obtain ⟨row, place, stands⟩ := row_of_listed each here
    have index : (other.received (offset + k)).offset.toNat - 1 = offset + k := by
      have inside := (List.getElem?_eq_some_iff.mp here).1
      have plain : (UInt64.ofNat (offset + k + 1)).toNat = offset + k + 1 :=
        UInt64.toNat_ofNat_of_lt' (by change _ < 2 ^ 64; omega)
      change (UInt64.ofNat (offset + k + 1)).toNat - 1 = _
      omega
    have type := congrArg FileKind.entryType stands.type
    exact ⟨row, by rw [index, place], stands.name, type, stands.kind, stands.version, stands.number⟩

section Listing

variable {fid : FidNumber} {path : Path} {above : FileKind} {shown : List (String × FileKind)}
  (sorted : shown.Pairwise fun a b => a.1 < b.1) (few : shown.length + 2 < 2 ^ 64)

include sorted few

theorem readdir_page {server : Server HostShare} (sized : server.Sized) (offers : Offers server fid path above shown)
    {message : List UInt8} {offset : UInt64} {count : UInt32} (asks : Asks message (.readdir fid offset count))
    (space : UInt32) (within : offset.toNat ≤ shown.length + 2)
    (roomy : ∀ row ∈ rows path above shown, row.size ≤ min count.toNat (server.ioLimit space)) :
    ∃ data page, (server.handle message space).1.data? = some data ∧ data.length ≤ count.toNat ∧
      (server.handle message space).1.entries? = some page ∧
      Continues (server.handle message space).2.fs (rows path above shown) offset.toNat page := by
  obtain ⟨listed, share, each, run⟩ := readdir_runs sorted offers offset count space
  dsimp only at run
  obtain ⟨served, fields, left⟩ := handle_done asks space run
  obtain ⟨whole, fits⟩ := packed_size offset.toNat (min count.toNat (server.ioLimit space)) (listed.drop offset.toNat)
  have limit := ioLimit_le sized.1 space
  have most : server.msize.toNat ≤ 8192 := UInt32.le_iff_toNat_le.mp sized.2
  obtain ⟨page, first, some, reads⟩ :=
    packed_page offset.toNat (show min count.toNat (server.ioLimit space) < 65536 by omega) (listed.drop offset.toNat)
  have data := Message.data_fields fields whole (by omega)
  refine ⟨_, received offset.toNat page, data, ?_, ?_, ?_⟩
  · change fieldsSize _ ≤ _
    omega
  · rw [Message.entries?, if_neg served, data]
    exact reads _ (Nat.le_refl _)
  · rw [left]
    have total := rows_length path above shown
    exact received_continues each (by omega) (by omega) roomy first some

end Listing

-- A request of a client that lists a directory, behind whatever it asks for and happens before.
structure Turn where
  before : List (Event HostShare)
  message : List UInt8
  count : UInt32
  space : UInt32

def Turn.met (turn : Turn) (server : Server HostShare) : Server HostShare :=
  turn.before.foldl after server

def Turn.taken (turn : Turn) (server : Server HostShare) : Message × Server HostShare :=
  (turn.met server).handle turn.message turn.space

-- Where the client goes on: at the offset of the last entry that it has received.
def resumed (offset : UInt64) (answer : Message) : UInt64 :=
  ((answer.entries?.bind List.getLast?).map Received.offset).getD offset

inductive Listing (fid : FidNumber) (path : Path) (above : FileKind) (shown : List (String × FileKind)) :
    Server HostShare → UInt64 → List Turn → Prop
  | stopped {server : Server HostShare} {offset : UInt64} : Listing fid path above shown server offset []
  | goesOn {server : Server HostShare} {offset : UInt64} {turn : Turn} {turns : List Turn}
      (asks : Asks turn.message (.readdir fid offset turn.count)) (offers : Offers (turn.met server) fid path above shown)
      (roomy : ∀ row ∈ rows path above shown, row.size ≤ min turn.count.toNat ((turn.met server).ioLimit turn.space))
      (onward : Listing fid path above shown (turn.taken server).2 (resumed offset (turn.taken server).1) turns) :
      Listing fid path above shown server offset (turn :: turns)

structure Exchange where
  count : UInt32
  answer : Message
  share : HostShare

def exchanges (server : Server HostShare) : List Turn → List Exchange
  | [] => []
  | turn :: turns => ⟨turn.count, (turn.taken server).1, (turn.taken server).2.fs⟩ :: exchanges (turn.taken server).2 turns

-- The answer is made of whole entries, which are right, and not longer than asked for.
structure Delivered (rows : List Row) (exchange : Exchange) (page : List Received) : Prop where
  short : ∃ data, exchange.answer.data? = some data ∧ data.length ≤ exchange.count.toNat
  entries : exchange.answer.entries? = some page
  right : ∀ entry ∈ page, Right exchange.share rows entry

-- Pages from an offset on, of a listing of this length: one entry after the other, up to the first page without any.
-- There is one when there are enough pages.
structure Covers (length offset : Nat) (pages : List (List Received)) : Prop where
  offsets : pages.flatten.map (·.offset.toNat) = List.range' (offset + 1) pages.flatten.length
  within : offset + pages.flatten.length ≤ length
  ends : ∀ front back, pages = front ++ [] :: back → offset + front.flatten.length = length
  done : length < offset + pages.length → [] ∈ pages

section Pages

variable {share : HostShare} {rows : List Row} {page : List Received}

theorem resumed_continues {offset : UInt64} {answer : Message} (read : answer.entries? = some page)
    (continues : Continues share rows offset.toNat page) : (resumed offset answer).toNat = offset.toNat + page.length := by
  have last := congrArg List.getLast? continues.offsets
  rw [List.getLast?_map, List.getLast?_range'] at last
  rw [resumed, read, Option.bind_some]
  cases found : page.getLast? with
  | none =>
    rw [List.getLast?_eq_none_iff.mp found]
    rfl
  | some entry =>
    have some : page.length ≠ 0 := by
      rintro empty
      rw [List.eq_nil_of_length_eq_zero empty] at found
      cases found
    rw [found, if_neg some] at last
    have here := Option.some.inj last
    dsimp only at here
    change entry.offset.toNat = _
    omega

theorem Covers.behind {offset : Nat} {pages : List (List Received)} (continues : Continues share rows offset page)
    (covers : Covers rows.length (offset + page.length) pages) : Covers rows.length offset (page :: pages) := by
  refine ⟨?_, ?_, ?_, ?_⟩
  · rw [List.flatten_cons, List.map_append, continues.offsets, covers.offsets, List.length_append, ← List.range'_append_1,
      Nat.add_right_comm]
  · have within := covers.within
    rw [List.flatten_cons, List.length_append]
    omega
  · intro front back same
    cases front with
    | nil =>
      obtain ⟨rfl, _⟩ := List.cons.inj same
      exact continues.ends rfl
    | cons first front =>
      obtain ⟨rfl, rest⟩ := List.cons.inj same
      have ends := covers.ends front back rest
      rw [List.flatten_cons, List.length_append]
      omega
  · intro many
    rw [List.length_cons] at many
    by_cases empty : page = []
    · exact empty ▸ List.mem_cons_self
    · have some := List.length_pos_iff.mpr empty
      exact List.mem_cons_of_mem _ (covers.done (by omega))

end Pages

theorem listing_pages {fid : FidNumber} {path : Path} {above : FileKind} {shown : List (String × FileKind)}
    (sorted : shown.Pairwise fun a b => a.1 < b.1) (few : shown.length + 2 < 2 ^ 64) {server : Server HostShare}
    (sized : server.Sized) {offset : UInt64} (within : offset.toNat ≤ shown.length + 2) {turns : List Turn}
    (listing : Listing fid path above shown server offset turns) :
    ∃ pages, List.Forall₂ (Delivered (rows path above shown)) (exchanges server turns) pages ∧
      Covers (rows path above shown).length offset.toNat pages := by
  induction listing with
  | stopped =>
    refine ⟨[], .nil, ⟨rfl, ?_, ?_, ?_⟩⟩
    · simpa [rows_length] using within
    · intro front back same
      cases front <;> cases same
    · intro more
      rw [rows_length, List.length_nil] at more
      omega
  | @goesOn server offset turn turns asks offers roomy onward ih =>
    have met : (turn.met server).Sized := run_sized sized turn.before
    obtain ⟨data, page, held, short, read, continues⟩ := readdir_page sorted few met offers asks turn.space within roomy
    have next : (resumed offset (turn.taken server).1).toNat = offset.toNat + page.length :=
      resumed_continues read continues
    have left : (turn.taken server).2.Sized := after_sized met (.message turn.message turn.space)
    have inside := continues.within
    have total := rows_length path above shown
    obtain ⟨pages, delivered, covers⟩ := ih left (by omega)
    have here : Delivered (rows path above shown) ⟨turn.count, (turn.taken server).1, (turn.taken server).2.fs⟩ page :=
      ⟨⟨data, held, short⟩, read, continues.right⟩
    rw [next] at covers
    exact ⟨page :: pages, .cons here delivered, covers.behind continues⟩

/-- A client lists a directory, to which and to the one above which the share gives access. However it is cut into
pages, and whatever happens in between as long as the directory and the way to it stay as they are: each answer is made
of whole entries and no longer than the count that is asked for. Together they are ".", ".." and the entries whose names
are text, in the order of their names, each of them once and with the number that its path has then. An answer without
entries comes after all of them, and it comes when there are enough requests. -/
theorem directory_listed (tag : String) (share : HostShare) {fid : FidNumber} {path : Path} {above : FileKind}
    {shown : List (String × FileKind)} (sorted : shown.Pairwise fun a b => a.1 < b.1) (few : shown.length + 2 < 2 ^ 64)
    {turns : List Turn} (listing : Listing fid path above shown (withTag tag share) 0 turns) :
    ∃ pages, List.Forall₂ (Delivered (rows path above shown)) (exchanges (withTag tag share) turns) pages ∧
      Covers (shown.length + 2) 0 pages := by
  obtain ⟨pages, delivered, covers⟩ := listing_pages sorted few (sized_most rfl) (Nat.zero_le _) listing
  rw [rows_length] at covers
  exact ⟨pages, delivered, covers⟩

def listFrom (offset : UInt8) : List UInt8 :=
  [23, 0, 0, 0, 40, 1, 0, 0, 0, 0, 0, offset, 0, 0, 0, 0, 0, 0, 0, 60, 0, 0, 0]

def pageFrom (before : List (Event HostShare)) (offset : UInt8) : Turn :=
  ⟨before, listFrom offset, 60, 8192⟩

def firstPages : List Turn :=
  [pageFrom [.message attaching 8192] 0, pageFrom [] 2, pageFrom [] 3]

def seated (inodes : HostShare.Numbers) (nextInode : UInt64) : Server HostShare :=
  ⟨{ lettered with inodes, nextInode }, "share".toUTF8, 8192, [(0, ⟨[], false⟩)]⟩

theorem seated_offers (inodes : HostShare.Numbers) (nextInode : UInt64) :
    Offers (seated inodes nextInode) 0 [] .directory [("f", .file)] := by
  have root : Shows (seated inodes nextInode).fs [] lettered.host.tree := ⟨by cbv, by cbv⟩
  exact ⟨⟨false, rfl⟩, ⟨_, _, root, .refl _⟩, ⟨_, root, rfl⟩⟩

theorem lettered_listing : Listing 0 [] .directory [("f", .file)] (withTag "share" lettered) 0 firstPages := by
  have met : (pageFrom [.message attaching 8192] 0).met (withTag "share" lettered) = seated [([], 1)] 2 := by cbv
  have left : ((pageFrom [.message attaching 8192] 0).taken (withTag "share" lettered)).2 =
      seated [(["f"], 2), ([], 1)] 3 := by cbv
  have next : resumed 0 ((pageFrom [.message attaching 8192] 0).taken (withTag "share" lettered)).1 = 2 := by cbv
  have kept : ((pageFrom [] 2).taken (seated [(["f"], 2), ([], 1)] 3)).2 = seated [(["f"], 2), ([], 1)] 3 := by cbv
  have last : resumed 2 ((pageFrom [] 2).taken (seated [(["f"], 2), ([], 1)] 3)).1 = 3 := by cbv
  have roomy (inodes : HostShare.Numbers) (nextInode : UInt64) :
      ∀ row ∈ rows [] .directory [("f", .file)],
        row.size ≤ min (60 : UInt32).toNat ((seated inodes nextInode).ioLimit 8192) := by
    have limit : (seated inodes nextInode).ioLimit 8192 = 8168 := rfl
    rw [limit]
    decide
  refine .goesOn ⟨40, 1, _, by cbv, by cbv⟩ (met ▸ seated_offers _ _) (met ▸ roomy _ _) ?_
  rw [left, next]
  refine .goesOn ⟨40, 1, _, by cbv, by cbv⟩ (seated_offers _ _) (roomy _ _) ?_
  rw [kept, last]
  exact .goesOn ⟨40, 1, _, by cbv, by cbv⟩ (seated_offers _ _) (roomy _ _) .stopped

theorem directory_listed_lettered :
    List.Pairwise (fun a b : String × FileKind => a.1 < b.1) [("f", .file)] ∧ [("f", FileKind.file)].length + 2 < 2 ^ 64 ∧
      Listing 0 [] .directory [("f", .file)] (withTag "share" lettered) 0 firstPages ∧
      ∃ pages,
        List.Forall₂ (Delivered (rows [] .directory [("f", .file)])) (exchanges (withTag "share" lettered) firstPages) pages ∧
          Covers 3 0 pages := by
  have sorted : List.Pairwise (fun a b : String × FileKind => a.1 < b.1) [("f", .file)] := List.pairwise_singleton _ _
  exact ⟨sorted, by decide, lettered_listing, directory_listed "share" lettered sorted (by decide) lettered_listing⟩

def looped : HostShare where
  host := ⟨.directory [(.text "root", .directory [
    (.text "d", .directory [(.text "root", .emptyDirectory)] false),
    (.text "a", .directory [(.text "out", .link "..")] false)] false)] false⟩
  root := [.text "root"]

def outAndBack : List (Event HostShare) := [
  .message attaching 8192,
  .message [26, 0, 0, 0, 110, 2, 0, 0, 0, 0, 0, 1, 0, 0, 0, 2, 0, 1, 0, 0x64, 4, 0, 0x72, 0x6f, 0x6f, 0x74] 8192,
  .message [20, 0, 0, 0, 110, 3, 0, 0, 0, 0, 0, 2, 0, 0, 0, 1, 0, 1, 0, 0x64] 8192,
  .message [20, 0, 0, 0, 110, 4, 0, 0, 0, 0, 0, 3, 0, 0, 0, 1, 0, 1, 0, 0x61] 8192,
  .message [21, 0, 0, 0, 76, 5, 0, 2, 0, 0, 0, 4, 0, 0x72, 0x6f, 0x6f, 0x74, 0, 2, 0, 0] 8192,
  .message [18, 0, 0, 0, 76, 6, 0, 0, 0, 0, 0, 1, 0, 0x64, 0, 2, 0, 0] 8192,
  .message [23, 0, 0, 0, 74, 7, 0, 3, 0, 0, 0, 3, 0, 0x6f, 0x75, 0x74, 0, 0, 0, 0, 1, 0, 0x64] 8192]

def misled : Server HostShare :=
  outAndBack.foldl after (withTag "share" looped)

def listMisled : List UInt8 :=
  [23, 0, 0, 0, 40, 8, 0, 1, 0, 0, 0, 0, 0, 0, 0, 0, 0, 0, 0, 0xe8, 3, 0, 0]

theorem listing_refused :
    Asks listMisled (.readdir 1 0 1000) ∧ misled.fids.lookup 1 = some ⟨["d", "root"], false⟩ ∧
      (∃ entries readOnly, Shows misled.fs ["d", "root"] (.directory entries readOnly)) ∧
      (misled.handle listMisled 8192).1.type = errorType ∧
      (misled.handle listMisled 8192).1.fields = [.u32 Errno.access] := by
  refine ⟨⟨40, 8, listMisled.drop 7, by cbv, by cbv⟩, by cbv, ⟨_, _, by cbv, by cbv⟩, by cbv, by cbv⟩

end RvBoard.NineP.Server
