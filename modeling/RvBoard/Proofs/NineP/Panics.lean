import RvBoard.Proofs.NineP.Asides
import RvBoard.Share.HostShare

/-!
# Panics

The server panics in one case only: a client reads an open file, and the file system says that it has put more bytes into
the buffer than the buffer has. The directory of a host says no such thing.
-/

set_option autoImplicit false

namespace RvBoard

theorem Contents.size_read (contents : Contents) (offset n : Nat) : (contents.read offset n).size ≤ n := by
  simp only [Contents.read, ByteArray.size_append, Bytes.size_zeros, ByteArray.size_extract]
  omega

theorem HostShare.size_read {path : Path} {offset : UInt64} {n : Nat} {share next : HostShare} {bytes : ByteArray}
    (given : HostShare.read path offset n share = .ok bytes next) : bytes.size ≤ n := by
  obtain ⟨full, mid, _, asked⟩ := bind_ok.mp given
  cases file : mid.host.openFile full false with
  | error errno => simp [ask, Host.readFile, file, bind, Except.bind] at asked
  | ok opened =>
    simp only [ask, Host.readFile, file, bind, Except.bind] at asked
    split at asked
    · rename_i read
      split at read
      · cases read
      split at read
      · cases read
      · cases read
        cases asked
        exact Contents.size_read _ _ _
    · cases asked

namespace NineP

section Buffers

variable {size : Nat} {filled : Filled size}

theorem Filled.bytes_none : filled.bytes? = none ↔ size < filled.count := by
  have whole := filled.whole
  unfold bytes? Bytes.slice? Bytes.holds
  rw [ite_eq_right_iff, decide_eq_true_iff]
  simp only [reduceCtorEq, imp_false]
  omega

theorem Filled.bytes_some {bytes : ByteArray} (cut : filled.bytes? = some bytes) :
    bytes.size = filled.count ∧ filled.count ≤ size := by
  unfold bytes? Bytes.slice? Bytes.holds at cut
  split at cut
  · rename_i within
    cases cut
    have whole := filled.whole
    rw [decide_eq_true_iff] at within
    rw [ByteArray.size_extract]
    omega
  · cases cut

end Buffers

namespace Server

variable {φ : Type}

-- An operation that ends without a panic, in whatever state it starts.
def Calm {α : Type} (operation : M φ α) : Prop :=
  Fails (· ≠ .panic) operation

section Parts

theorem calm_of_never {α : Type} {operation : M φ α} (never : Fails (fun _ => False) operation) : Calm operation :=
  fails_mono never fun _ impossible => impossible.elim

theorem fail_calm {α : Type} (number : Errno) : Calm (fail number : M φ α) :=
  fails_throw Fault.noConfusion

theorem onFs_calm {α : Type} (operation : FsM φ α) : Calm (onFs operation : M φ α) := by
  intro server fault final failed
  unfold onFs at failed
  cases outcome : operation server.fs with
  | ok value fs =>
    rw [outcome] at failed
    cases failed
  | error number fs =>
    rw [outcome] at failed
    cases failed
    exact Fault.noConfusion

theorem lookup_calm (fid : FidNumber) : Calm (lookup fid : M φ Fid) := by
  refine fails_bind fails_get fun server => ?_
  cases server.fids.lookup fid with
  | none => exact fail_calm _
  | some entry => exact fails_pure entry

theorem openPath_calm (fid : FidNumber) : Calm (openPath fid : M φ Path) :=
  fails_bind (lookup_calm fid) fun entry => fails_ite (fails_pure entry.path) (fail_calm _)

theorem openPath_ok {server next : Server φ} {fid : FidNumber} {path : Path}
    (opened : openPath fid server = .ok path next) :
    ∃ entry, server.fids.lookup fid = some entry ∧ entry.isOpen = true ∧ path = entry.path ∧ next = server := by
  obtain ⟨entry, mid, found, rest⟩ := bind_ok.mp opened
  obtain ⟨current, _, got, chosen⟩ := bind_ok.mp found
  cases got
  cases bound : server.fids.lookup fid with
  | none =>
    rw [bound] at chosen
    cases chosen
  | some other =>
    rw [bound] at chosen
    cases chosen
    by_cases isOpen : entry.isOpen = true
    · rw [if_pos isOpen] at rest
      cases rest
      exact ⟨entry, rfl, isOpen, rfl, rfl⟩
    · rw [if_neg isOpen] at rest
      cases rest

theorem onFs_done {α : Type} {operation : FsM φ α} {server next : Server φ} {value : α}
    (done : onFs operation server = .ok value next) : ∃ fs, operation server.fs = .ok value fs := by
  unfold onFs at done
  cases outcome : operation server.fs with
  | ok other fs =>
    rw [outcome] at done
    cases done
    exact ⟨fs, rfl⟩
  | error number fs =>
    rw [outcome] at done
    cases done

theorem filledBytes_panics {size : Nat} {filled : Filled size} {server : Server φ} :
    (∃ next, (filledBytes filled : M φ ByteArray) server = .error .panic next) ↔ size < filled.count := by
  rw [← Filled.bytes_none]
  unfold filledBytes
  cases filled.bytes? with
  | none => exact iff_of_true ⟨server, rfl⟩ rfl
  | some bytes => exact iff_of_false (fun ⟨_, never⟩ => nomatch never) (Option.some_ne_none bytes)

variable [FileSystem φ]

theorem directoryPath_calm (fid : FidNumber) : Calm (directoryPath fid : M φ Path) := by
  refine fails_bind (lookup_calm fid) fun entry => fails_bind (onFs_calm _) fun _ => ?_
  exact fails_ite (fails_pure entry.path) (fail_calm _)

theorem walkFrom_calm (names : List String) (path : Path) : Calm (walkFrom path names : M φ (Path × List Qid)) := by
  induction names generalizing path with
  | nil => exact fails_pure _
  | cons name rest ih =>
    refine fails_bind (fails_tryCatch fun _ => fails_pure none) fun reached => ?_
    cases reached with
    | none => exact fails_pure _
    | some reached => exact fails_bind (ih reached.1) fun _ => fails_pure _

theorem listing_calm (path : Path) : Calm (listing path : M φ (List Listed)) := by
  refine fails_bind (onFs_calm _) fun _ => fails_bind (onFs_calm _) fun _ => ?_
  exact fails_bind (onFs_calm _) fun _ => fails_pure _

theorem movePath_calm (old new : Path) : Calm (movePath old new : M φ (List Field)) := by
  have moves : Calm (do
      onFs (FileSystem.rename old new)
      modify fun server => { server with fids := server.fids.map fun entry => (entry.1, repath old new entry.2) }
      return ([] : List Field) : M φ (List Field)) :=
    fails_bind (onFs_calm _) fun _ => fails_bind (fails_modify _) fun _ => fails_pure _
  unfold movePath
  extract_lets jump
  split
  · exact fails_bind (fail_calm _) fun _ => moves
  · exact moves

end Parts

section Requests

variable [FileSystem φ]

theorem perform_calm (space : UInt32) {request : Request} (other : ∀ fid offset count, request ≠ .read fid offset count) :
    Calm (perform space request : M φ (List Field)) := by
  have bound {fid : FidNumber} {entry : Fid} {rest : M φ (List Field)} (follows : Calm rest) :
      Calm (setFid fid entry >>= fun _ => rest) :=
    fails_bind (calm_of_never (setFid_never fid entry)) fun _ => follows
  cases request with
  | version msize text => exact fails_bind (fails_modify _) fun _ => fails_pure _
  | attach fid =>
    change Calm (attach fid)
    unfold attach
    exact fails_when (fail_calm _) (fails_bind (onFs_calm _) fun attr => bound (fails_pure _))
  | walk fid newFid names =>
    refine fails_bind (lookup_calm fid) fun entry => fails_bind fails_get fun _ => fails_when (fail_calm _) ?_
    refine fails_bind (walkFrom_calm names _) fun reached => fails_when (fail_calm _) ?_
    exact fails_when (calm_of_never (setFid_never newFid _)) (fails_pure _)
  | clunk fid => exact fails_bind (lookup_calm fid) fun _ => fails_bind (fails_modify _) fun _ => fails_pure _
  | getattr fid => exact fails_bind (lookup_calm fid) fun _ => fails_bind (onFs_calm _) fun _ => fails_pure _
  | setattr fid valid size => exact fails_bind (lookup_calm fid) fun _ => fails_when (onFs_calm _) (fails_pure _)
  | lopen fid flags =>
    refine fails_bind (lookup_calm fid) fun entry => fails_bind (onFs_calm _) fun attr => ?_
    exact fails_when (onFs_calm _) (bound (calm_of_never (opened_never attr)))
  | lcreate fid name =>
    refine fails_bind (directoryPath_calm fid) fun path => fails_bind (onFs_calm _) fun attr => ?_
    exact bound (calm_of_never (opened_never attr))
  | read fid offset count => exact absurd rfl (other fid offset count)
  | write fid offset data => exact fails_bind (openPath_calm fid) fun _ => fails_bind (onFs_calm _) fun _ => fails_pure _
  | readdir fid offset count =>
    refine fails_bind fails_get fun server => fails_bind (directoryPath_calm fid) fun path => ?_
    exact fails_bind (listing_calm path) fun _ => fails_pure _
  | mkdir fid name => exact fails_bind (directoryPath_calm fid) fun _ => fails_bind (onFs_calm _) fun _ => fails_pure _
  | unlinkat fid name => exact fails_bind (directoryPath_calm fid) fun _ => fails_bind (onFs_calm _) fun _ => fails_pure _
  | renameat oldFid oldName newFid newName =>
    refine fails_bind (directoryPath_calm oldFid) fun _ => fails_bind (directoryPath_calm newFid) fun _ => ?_
    exact movePath_calm _ _
  | rename fid newDir name =>
    exact fails_bind (lookup_calm fid) fun _ => fails_bind (directoryPath_calm newDir) fun _ => movePath_calm _ _
  | statfs fid => exact fails_bind (lookup_calm fid) fun _ => fails_bind (onFs_calm _) fun _ => fails_pure _
  | fsync fid => exact fails_bind (lookup_calm fid) fun _ => fails_bind (onFs_calm _) fun _ => fails_pure _
  | flush => exact fails_pure _

-- The file system is asked to fill a buffer of as many bytes as the client and the room for the reply allow, and says that
-- it has put more there.
def Overfills (server : Server φ) (fid : FidNumber) (offset : UInt64) (count space : UInt32) : Prop :=
  ∃ entry, server.fids.lookup fid = some entry ∧ entry.isOpen = true ∧
    ∃ filled fs, FileSystem.read entry.path offset (min count.toNat (server.ioLimit space)) server.fs = .ok filled fs ∧
      min count.toNat (server.ioLimit space) < filled.count

theorem read_panics (server : Server φ) (fid : FidNumber) (offset : UInt64) (count space : UInt32) :
    (∃ next, Server.read fid offset count space server = .error .panic next) ↔ server.Overfills fid offset count space := by
  unfold Server.read
  rw [bind_of_ok (get_run server)]
  constructor
  · rintro ⟨next, panicked⟩
    rcases bind_error.mp panicked with closed | ⟨path, mid, opened, panicked⟩
    · exact absurd rfl (openPath_calm fid _ _ _ closed)
    rcases bind_error.mp panicked with failed | ⟨filled, after, asked, panicked⟩
    · exact absurd rfl (onFs_calm _ _ _ _ failed)
    rcases bind_error.mp panicked with cut | ⟨_, _, _, never⟩
    · obtain ⟨entry, bound, isOpen, rfl, rfl⟩ := openPath_ok opened
      obtain ⟨fs, filling⟩ := onFs_done asked
      exact ⟨entry, bound, isOpen, filled, fs, filling, filledBytes_panics.mp ⟨_, cut⟩⟩
    · cases never
  · rintro ⟨entry, bound, isOpen, filled, fs, asked, more⟩
    let there : Server φ := { server with fs := fs }
    obtain ⟨next, cut⟩ : ∃ next, filledBytes filled there = .error .panic next := filledBytes_panics.mpr more
    have opened := openPath_run bound
    rw [if_pos isOpen] at opened
    rw [bind_of_ok opened, bind_of_ok (onFs_ok asked)]
    exact ⟨next, bind_of_error cut⟩

def Overreads (server : Server φ) (message : List UInt8) (space : UInt32) : Prop :=
  ∃ fid offset count, Asks message (.read fid offset count) ∧ server.Overfills fid offset count space

theorem serve_none (server : Server φ) (message : List UInt8) (space : UInt32) :
    (server.serve message space).1 = none ↔ server.Overreads message space := by
  have served := serve_serves server message space
  constructor
  · intro silent
    generalize server.serve message space = outcome at served silent
    cases served with
    | @panicked type tag fields request next read parsed panicked =>
      by_cases reads : ∃ fid offset count, request = .read fid offset count
      · obtain ⟨fid, offset, count, rfl⟩ := reads
        exact ⟨fid, offset, count, ⟨type, tag, fields, read, parsed⟩, (read_panics server fid offset count space).mp ⟨next, panicked⟩⟩
      · have other : ∀ fid offset count, request ≠ .read fid offset count :=
          fun fid offset count same => reads ⟨fid, offset, count, same⟩
        exact absurd rfl (perform_calm space other _ _ _ panicked)
    | _ => cases silent
  · rintro ⟨fid, offset, count, asks, more⟩
    obtain ⟨next, panicked⟩ := (read_panics server fid offset count space).mpr more
    rcases serve_asked server asks space with ⟨_, _, run, _⟩ | ⟨_, _, run, _⟩ | ⟨_, _, same⟩
    · exact nomatch (show Server.read fid offset count space server = _ from run).symm.trans panicked
    · exact nomatch (show Server.read fid offset count space server = _ from run).symm.trans panicked
    · rw [same]

end Requests

theorem host_fills (server : Server HostShare) (fid : FidNumber) (offset : UInt64) (count space : UInt32) :
    ¬ server.Overfills fid offset count space := by
  rintro ⟨entry, _, _, filled, fs, asked, more⟩
  change (Filled.ofBytes _ <$> HostShare.read entry.path offset _) server.fs = _ at asked
  rw [map_eq_pure_bind] at asked
  obtain ⟨bytes, mid, read, done⟩ := bind_ok.mp asked
  cases done
  exact Nat.not_lt.mpr (HostShare.size_read read) more

end Server

end NineP

end RvBoard
