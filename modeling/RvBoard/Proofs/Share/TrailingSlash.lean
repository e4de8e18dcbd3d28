import RvBoard.Proofs.Outcome
import RvBoard.Proofs.Share.Resolution
import RvBoard.Share.HostShare

/-!
# Trailing slashes in a share

At a directory a path with a trailing slash is to every operation of a share what the path without
it is. At a file every operation fails.
-/

set_option autoImplicit false

namespace RvBoard

namespace HostShare

open NineP (FileAttr)

theorem ask_ok {α : Type} {question : HostShare → Except Errno α} {share : HostShare} {value : α}
    (given : question share = .ok value) : ask question share = .ok value share := by
  unfold ask
  rw [given]

theorem ask_error {α : Type} {question : HostShare → Except Errno α} {share : HostShare} {errno : Errno}
    (refused : question share = .error errno) : ask question share = .error errno share := by
  unfold ask
  rw [refused]

theorem hostPath_slash (share : HostShare) {path : Path} (named : path ≠ []) :
    share.hostPath (path ++ [""]) = share.hostPath path ++ [""] := by
  unfold hostPath
  have filled : path.isEmpty = false := by
    cases path with
    | nil => exact absurd rfl named
    | cons first rest => rfl
  have longer : List.isEmpty (path ++ [""]) = false := by simp
  rw [filled, longer]
  exact (List.append_assoc _ _ _).symm

theorem isPlain_slash {path : Path} (named : path ≠ []) : Path.isPlain (path ++ [""]) = Path.isPlain path := by
  unfold Path.isPlain
  cases path with
  | nil => exact absurd rfl named
  | cons first rest =>
    have all : List.all (first :: rest ++ [""]) (· != "..") = List.all (first :: rest) (· != "..") := by
      rw [List.all_append]
      simp
    rw [all, List.cons_append]
    split <;> split <;> simp_all

theorem names_slash (path : Path) : Path.names (path ++ [""]) = Path.names path := by
  unfold Path.names
  rw [List.filter_append]
  simp

theorem checkedPath_cases (share : HostShare) (path : Path) :
    share.checkedPath path = .error .access ∨ share.checkedPath path = .ok (share.hostPath path) := by
  unfold checkedPath
  split
  · exact .inl rfl
  dsimp only
  split
  · split
    · exact .inr rfl
    · exact .inl rfl
  · split
    · split
      · exact .inr rfl
      · exact .inl rfl
    · exact .inr rfl

theorem checkedPath_reached {share : HostShare} {path : Path} {location : Location}
    (reached : share.host.canonical (share.hostPath path) = .ok location) :
    share.checkedPath path = if path.isPlain && share.isInside location then .ok (share.hostPath path) else .error .access := by
  unfold checkedPath
  cases path.isPlain with
  | false => rfl
  | true => simp [reached]

theorem inode_names {path other : Path} (same : path.names = other.names) : inode path = inode other := by
  unfold inode
  rw [same]

theorem attrOf_names {path other : Path} (same : path.names = other.names) (node : Node) :
    attrOf path node = attrOf other node := by
  unfold attrOf
  rw [inode_names same]

section Directory

variable {share : HostShare} {path : Path} {entries : List (FileName × Node)} {readOnly : Bool} (named : path ≠ [])
  (directory : share.host.stat (share.hostPath path) false = .ok (.directory entries readOnly))

include named directory

theorem checked_slash :
    (checked path share = .error .access share ∧ checked (path ++ [""]) share = .error .access share) ∨
      (checked path share = .ok (share.hostPath path) share ∧
        checked (path ++ [""]) share = .ok (share.hostPath path ++ [""]) share) := by
  obtain ⟨location, reached, slash⟩ := Host.canonical_directory directory
  rw [← hostPath_slash share named] at slash
  have first := checkedPath_reached reached
  have second := checkedPath_reached slash
  rw [isPlain_slash named, hostPath_slash share named] at second
  split at first
  · rename_i allowed
    rw [if_pos allowed] at second
    exact .inr ⟨ask_ok first, ask_ok second⟩
  · rename_i refused
    rw [if_neg refused] at second
    exact .inl ⟨ask_error first, ask_error second⟩

variable (short : Host.refusal? (share.hostPath path ++ [""]) = none)

include short

theorem getattr_slash : getattr (path ++ [""]) share = getattr path share := by
  unfold getattr
  rcases checked_slash named directory with ⟨first, second⟩ | ⟨first, second⟩
  · rw [bind_of_error first, bind_of_error second]
  · have slash := Host.stat_slash directory short false
    rw [bind_of_ok first, bind_of_ok second, bind_of_ok (ask_ok slash), bind_of_ok (ask_ok directory),
      attrOf_names (names_slash path)]

theorem filePath_slash :
    ∃ errno, filePath path share = .error errno share ∧ filePath (path ++ [""]) share = .error errno share := by
  obtain ⟨plain, slash⟩ := Host.isDirectory_slash directory short
  unfold filePath
  rcases checked_slash named directory with ⟨first, second⟩ | ⟨first, second⟩
  · exact ⟨_, bind_of_error first, bind_of_error second⟩
  · refine ⟨.isDirectory, ?_, ?_⟩
    · rw [bind_of_ok first, bind_of_ok (get_run share), plain]
      rfl
    · rw [bind_of_ok second, bind_of_ok (get_run share), slash]
      rfl

theorem fsync_slash : fsync (path ++ [""]) share = fsync path share := by
  obtain ⟨plain, slash⟩ := Host.isDirectory_slash directory short
  unfold fsync
  rcases checked_slash named directory with ⟨first, second⟩ | ⟨first, second⟩
  · rw [bind_of_error first, bind_of_error second]
  · rw [bind_of_ok first, bind_of_ok second, bind_of_ok (get_run share), bind_of_ok (get_run share), plain, slash]
    rfl

end Directory

theorem attrOf_kind {path : Path} {node : Node} {share next : HostShare} {attr : FileAttr}
    (given : attrOf path node share = .ok attr next) : attr.kind = kindOf node := by
  obtain ⟨ino, mid, _, rest⟩ := bind_ok.mp given
  cases rest
  rfl

theorem getattr_ok {path : Path} {share next : HostShare} {attr : FileAttr} (given : getattr path share = .ok attr next) :
    ∃ node, share.host.stat (share.hostPath path) false = .ok node ∧ attr.kind = kindOf node := by
  obtain ⟨full, mid, allowed, rest⟩ := bind_ok.mp given
  rcases share.checkedPath_cases path with refused | reached
  · rw [checked, ask_error refused] at allowed
    cases allowed
  · rw [checked, ask_ok reached] at allowed
    cases allowed
    obtain ⟨node, mid, found, rest⟩ := bind_ok.mp rest
    cases answer : share.host.stat (share.hostPath path) false with
    | error errno =>
      rw [ask_error answer] at found
      cases found
    | ok other =>
      rw [ask_ok answer] at found
      cases found
      exact ⟨node, rfl, attrOf_kind rest⟩

theorem getattr_slash_directory {path : Path} {share next : HostShare} {attr : FileAttr} (named : path ≠ [])
    (given : getattr (path ++ [""]) share = .ok attr next) : attr.kind = .directory := by
  obtain ⟨node, found, kind⟩ := getattr_ok given
  rw [hostPath_slash share named] at found
  have directory := Host.stat_slash_directory found
  rw [kind]
  cases node with
  | directory entries readOnly => rfl
  | file contents readOnly => cases directory
  | link target => cases directory

-- The errors of a path with a slash at which there is a file.
def Barred (errno : Errno) : Prop :=
  errno = .notDirectory ∨ errno = .access

def Bars {α : Type} (operation : M α) (share : HostShare) : Prop :=
  ∃ errno, Barred errno ∧ operation share = .error errno share

theorem bars_bind {α β : Type} {first : M α} {rest : α → M β} {share : HostShare} (barred : Bars first share) :
    Bars (first >>= rest) share := by
  obtain ⟨errno, kind, failed⟩ := barred
  exact ⟨errno, kind, bind_of_error failed⟩

theorem bars_map {α β : Type} {first : M α} {share : HostShare} (f : α → β) (barred : Bars first share) :
    Bars (f <$> first) share := by
  rw [map_eq_pure_bind]
  exact bars_bind barred

theorem bars_after {α β : Type} {first : M α} {rest : α → M β} {share : HostShare} {value : α}
    (before : Bars first share ∨ first share = .ok value share) (after : Bars (rest value) share) :
    Bars (first >>= rest) share := by
  rcases before with barred | passed
  · exact bars_bind barred
  · obtain ⟨errno, kind, failed⟩ := after
    exact ⟨errno, kind, (bind_of_ok passed).trans failed⟩

theorem bars_ask {α : Type} {question : HostShare → Except Errno α} {share : HostShare}
    (refused : question share = .error .notDirectory) : Bars (ask question) share :=
  ⟨.notDirectory, .inl rfl, ask_error refused⟩

theorem bars_change {operation : Host → Except Errno Host} {share : HostShare}
    (refused : operation share.host = .error .notDirectory) : Bars (change operation) share := by
  refine ⟨.notDirectory, .inl rfl, ?_⟩
  unfold change
  rw [refused]

section File

variable {share : HostShare} {path : Path} {contents : Contents} {readOnly : Bool} (named : path ≠ [])
  (file : share.host.stat (share.hostPath path) false = .ok (.file contents readOnly))
  (short : Host.refusal? (share.hostPath path ++ [""]) = none)

include named in
theorem checked_slash_cases :
    Bars (checked (path ++ [""])) share ∨ checked (path ++ [""]) share = .ok (share.hostPath path ++ [""]) share := by
  rcases share.checkedPath_cases (path ++ [""]) with refused | allowed
  · exact .inl ⟨.access, .inr rfl, ask_error refused⟩
  · rw [hostPath_slash share named] at allowed
    exact .inr (ask_ok allowed)

include file short

theorem openFile_slash (write : Bool) :
    share.host.isDirectory (share.hostPath path ++ [""]) = false ∧
      share.host.openFile (share.hostPath path ++ [""]) write = .error .notDirectory := by
  have unresolved := Host.resolve_file_slash file short true
  constructor
  · unfold Host.isDirectory Host.stat
    rw [unresolved]
    rfl
  · unfold Host.openFile
    rw [unresolved]
    rfl

include named

theorem getattr_bars : Bars (getattr (path ++ [""])) share := by
  refine bars_after (checked_slash_cases named) (bars_bind (bars_ask ?_))
  unfold Host.stat
  rw [Host.resolve_file_slash file short]
  rfl

theorem filePath_cases :
    Bars (filePath (path ++ [""])) share ∨ filePath (path ++ [""]) share = .ok (share.hostPath path ++ [""]) share := by
  have plain := (openFile_slash file short false).1
  unfold filePath
  rcases checked_slash_cases named with barred | allowed
  · exact .inl (bars_bind barred)
  · right
    rw [bind_of_ok allowed, bind_of_ok (get_run share), plain]
    rfl

theorem read_bars (offset : UInt64) (n : Nat) : Bars (read (path ++ [""]) offset n) share := by
  refine bars_after (filePath_cases named file short) (bars_ask ?_)
  unfold Host.readFile
  rw [(openFile_slash file short false).2]
  rfl

theorem write_bars (offset : UInt64) (bytes : ByteArray) : Bars (write (path ++ [""]) offset bytes) share := by
  refine bars_after (filePath_cases named file short) (bars_bind (bars_change ?_))
  unfold Host.writeFile
  rw [(openFile_slash file short true).2]
  rfl

theorem truncate_bars (size : UInt64) : Bars (truncate (path ++ [""]) size) share := by
  refine bars_after (filePath_cases named file short) (bars_change ?_)
  unfold Host.truncate
  rw [(openFile_slash file short true).2]
  rfl

theorem fsync_bars : Bars (fsync (path ++ [""])) share := by
  refine bars_after (checked_slash_cases named) (bars_after (.inr (get_run share)) ?_)
  rw [(openFile_slash file short false).1]
  exact bars_bind (bars_ask (openFile_slash file short false).2)

end File

end HostShare

end RvBoard
