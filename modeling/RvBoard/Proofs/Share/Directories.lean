import RvBoard.Proofs.Share.Numbers
import RvBoard.Proofs.Share.TrailingSlash

/-!
# Looking at directories

What a share shows of a path and of a directory. Looking hands out numbers and changes nothing else, and what is shown
has the number that its path has from then on.
-/

set_option autoImplicit false

namespace RvBoard.HostShare

open NineP (DirEntry FileAttr FileKind)

-- What is at a path that the share gives access to.
structure Shows (share : HostShare) (path : Path) (node : Node) : Prop where
  allowed : share.checkedPath path = .ok (share.hostPath path)
  found : share.host.stat (share.hostPath path) false = .ok node

structure Looked (share next : HostShare) : Prop where
  host : next.host = share.host
  root : next.root = share.root
  sights : Sights share.register next.register

theorem looked_refl (share : HostShare) : Looked share share :=
  ⟨rfl, rfl, .none⟩

section Looking

variable {share mid next : HostShare} {path : Path} {node : Node}

theorem Looked.trans (first : Looked share mid) (second : Looked mid next) : Looked share next :=
  ⟨second.host.trans first.host, second.root.trans first.root, first.sights.trans second.sights⟩

theorem Looked.shows (looked : Looked share next) (shows : Shows share path node) : Shows next path node := by
  obtain ⟨host, root, inodes, nextInode⟩ := next
  obtain ⟨rfl, rfl, _⟩ := looked
  exact ⟨shows.allowed, shows.found⟩

theorem Looked.lookup (looked : Looked share next) {place : List String} {n : UInt64}
    (numbered : share.inodes.lookup place = some n) : next.inodes.lookup place = some n :=
  looked.sights.lookup numbered

theorem inode_runs (path : Path) (share : HostShare) :
    ∃ n next, inode path share = .ok n next ∧ Looked share next ∧ next.inodes.lookup path.names = some n := by
  unfold inode
  cases unseen : share.inodes.lookup path.names with
  | none => exact ⟨_, _, rfl, ⟨rfl, rfl, .seen .none unseen⟩, by simp⟩
  | some n => exact ⟨n, share, rfl, looked_refl share, unseen⟩

theorem attrOf_runs (path : Path) (node : Node) (share : HostShare) :
    ∃ attr next, attrOf path node share = .ok attr next ∧ attr.kind = kindOf node ∧ Looked share next ∧
      next.inodes.lookup path.names = some attr.ino := by
  obtain ⟨n, next, run, looked, numbered⟩ := inode_runs path share
  exact ⟨_, next, bind_of_ok run, rfl, looked, numbered⟩

theorem getattr_runs (shows : Shows share path node) :
    ∃ attr next, getattr path share = .ok attr next ∧ attr.kind = kindOf node ∧ Looked share next ∧
      next.inodes.lookup path.names = some attr.ino := by
  have allowed : checked path share = .ok (share.hostPath path) share := ask_ok shows.allowed
  rw [getattr, bind_of_ok allowed, bind_of_ok (ask_ok shows.found)]
  exact attrOf_runs path node share

structure ShownAs (next : HostShare) (path : Path) (entry : String × Node) (shown : DirEntry) : Prop where
  name : shown.name = entry.1
  kind : shown.kind = kindOf entry.2
  number : next.inodes.lookup (path.join entry.1).names = some shown.ino

theorem dirEntries_run (path : Path) (entries : List (String × Node)) (share : HostShare) :
    ∃ shown next, entries.mapM (dirEntry path) share = .ok shown next ∧ Looked share next ∧
      List.Forall₂ (ShownAs next path) entries shown := by
  induction entries generalizing share with
  | nil => exact ⟨[], share, rfl, looked_refl share, .nil⟩
  | cons entry rest ih =>
    obtain ⟨attr, mid, run, kind, looked, numbered⟩ := attrOf_runs (path.join entry.1) entry.2 share
    obtain ⟨shown, next, runs, onward, others⟩ := ih mid
    have first : dirEntry path entry share = .ok ⟨entry.1, attr.kind, attr.ino⟩ mid := bind_of_ok run
    rw [List.mapM_cons, bind_of_ok first, bind_of_ok runs]
    exact ⟨_, next, rfl, looked.trans onward, .cons ⟨rfl, kind, onward.lookup numbered⟩ others⟩

theorem readDir_runs {entries : List (FileName × Node)} {readOnly : Bool}
    (shows : Shows share path (.directory entries readOnly)) :
    ∃ shown next, readDir path share = .ok shown next ∧ Looked share next ∧
      List.Forall₂ (ShownAs next path) (textEntries entries) shown := by
  have allowed : checked path share = .ok (share.hostPath path) share := ask_ok shows.allowed
  have listed : share.host.readDirectory (share.hostPath path) = .ok entries := by
    rw [Host.readDirectory, Host.stat_directory shows.found true]
    rfl
  rw [readDir, bind_of_ok allowed, bind_of_ok (ask_ok listed)]
  exact dirEntries_run path (textEntries entries) share

end Looking

section Keeping

variable {start : HostShare} {Holds : HostShare → Prop}

theorem attrOf_looks (path : Path) (node : Node) : Keeps (Looked start) (attrOf path node) := by
  intro share looked
  obtain ⟨attr, next, run, _, further, _⟩ := attrOf_runs path node share
  rw [run]
  exact looked.trans further

theorem getattr_looks (path : Path) : Keeps (Looked start) (getattr path) :=
  keeps_bind (ask_keeps _) fun _ => keeps_bind (ask_keeps _) fun _ => attrOf_looks path _

theorem readDir_looks (path : Path) : Keeps (Looked start) (readDir path) := by
  refine keeps_bind (ask_keeps _) fun _ => keeps_bind (ask_keeps _) fun _ => keeps_mapM _ fun entry => ?_
  exact keeps_bind (attrOf_looks _ _) fun _ => keeps_pure _

theorem read_keeps (path : Path) (offset : UInt64) (n : Nat) : Keeps Holds (read path offset n) := by
  have file : Keeps Holds (filePath path) := by
    refine keeps_bind (ask_keeps _) fun _ => keeps_bind keeps_get fun _ => ?_
    exact keeps_when (keeps_throw _) (keeps_pure _)
  exact keeps_bind file fun _ => ask_keeps _

theorem statfs_keeps : Keeps Holds statfs :=
  keeps_bind keeps_get fun _ => keeps_pure _

theorem fsync_keeps (path : Path) : Keeps Holds (fsync path) := by
  refine keeps_bind (ask_keeps _) fun _ => keeps_bind keeps_get fun _ => keeps_ite (keeps_pure ()) ?_
  exact keeps_bind (ask_keeps _) fun _ => keeps_pure ()

end Keeping

def named? (entry : FileName × Node) : Option (String × Node) :=
  match entry.1 with
  | .text name => some (name, entry.2)
  | .raw _ => none

theorem notBefore_iff (a b : String) : (!decide (b < a)) = true ↔ a ≤ b := by
  rw [Bool.not_eq_true', decide_eq_false_iff_not, String.not_lt]

theorem textEntries_sorted (entries : List (FileName × Node)) :
    (textEntries entries).Pairwise (fun a b => a.1 ≤ b.1) ∧ (textEntries entries).Perm (entries.filterMap named?) := by
  have sorted := @List.pairwise_mergeSort _ fun a b : String × Node => !(b.1 < a.1)
  refine ⟨(sorted ?_ ?_ (entries.filterMap named?)).imp fun ordered => (notBefore_iff ..).mp ordered,
    List.mergeSort_perm ..⟩
  · intro a b c first second
    rw [notBefore_iff] at first second ⊢
    exact String.le_trans first second
  · intro a b
    rw [Bool.or_eq_true, notBefore_iff, notBefore_iff]
    exact String.le_total ..

end RvBoard.HostShare
