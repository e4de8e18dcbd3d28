import RvBoard.Proofs.NineP.Asides
import RvBoard.Proofs.NineP.Replies

/-!
# Requests that fail

Every request does all that can fail before it changes its session. So an answer with an error number leaves the fids
and the message size alone, whatever the file system has done, and so does a walk that comes to some of its names only.
-/

set_option autoImplicit false

namespace RvBoard.NineP.Server

variable {φ : Type}

structure SameSession (start server : Server φ) : Prop where
  fids : server.fids = start.fids
  msize : server.msize = start.msize

theorem sameSession_refl (server : Server φ) : SameSession server server :=
  ⟨rfl, rfl⟩

theorem sameSession_indifferent (start : Server φ) : Indifferent (SameSession start) :=
  fun _ _ same => ⟨same.fids, same.msize⟩

section Changes

theorem bound_never {fid : FidNumber} {entry : Fid} {rest : M φ (List Field)} (follows : Fails (fun _ => False) rest) :
    Fails (fun _ => False) (setFid fid entry >>= fun _ => rest) :=
  fails_bind (setFid_never fid entry) fun _ => follows

end Changes

section Requests

variable [FileSystem φ] {Holds : Server φ → Prop}

theorem movePath_failsKeeping (indifferent : Indifferent Holds) (old new : Path) :
    FailsKeeping Holds (movePath old new : M φ (List Field)) := by
  have moves : FailsKeeping Holds (do
      onFs (FileSystem.rename old new)
      modify fun server => { server with fids := server.fids.map fun entry => (entry.1, repath old new entry.2) }
      return ([] : List Field)) := by
    refine failsKeeping_bind (onFs_keeps indifferent _) fun _ => failsKeeping_of_never ?_
    exact fails_bind (fails_modify _) fun _ => fails_pure _
  unfold movePath
  extract_lets jump
  split
  · exact failsKeeping_bind (keeps_throw _) fun _ => moves
  · exact moves

theorem perform_failsKeeping (indifferent : Indifferent Holds) (space : UInt32) (request : Request) :
    FailsKeeping Holds (perform space request) := by
  -- Questions come first, one after the other.
  have asking {α : Type} {operation : FsM φ α} {rest : α → M φ (List Field)}
      (follows : ∀ value, FailsKeeping Holds (rest value)) : FailsKeeping Holds (onFs operation >>= rest) :=
    failsKeeping_bind (onFs_keeps indifferent operation) follows
  have bound {fid : FidNumber} {rest : Fid → M φ (List Field)} (follows : ∀ entry, FailsKeeping Holds (rest entry)) :
      FailsKeeping Holds (Server.lookup fid >>= rest) :=
    failsKeeping_bind (lookup_keeps fid) follows
  have directory {fid : FidNumber} {rest : Path → M φ (List Field)} (follows : ∀ path, FailsKeeping Holds (rest path)) :
      FailsKeeping Holds (directoryPath fid >>= rest) :=
    failsKeeping_bind (directoryPath_keeps indifferent.looks fid) follows
  have done (fields : List Field) : FailsKeeping Holds (pure fields : M φ (List Field)) :=
    failsKeeping_of_never (fails_pure fields)
  cases request with
  | version msize text => exact failsKeeping_of_never (fails_bind (fails_modify _) fun _ => fails_pure _)
  | attach fid =>
    change FailsKeeping _ (attach fid)
    unfold attach
    refine failsKeeping_when (keeps_throw _) (asking fun attr => failsKeeping_of_never ?_)
    exact bound_never (fails_pure _)
  | walk fid newFid names =>
    refine bound fun entry => failsKeeping_bind keeps_get fun server => failsKeeping_when (keeps_throw _) ?_
    refine failsKeeping_bind (walkFrom_keeps indifferent.looks names entry.path) fun reached => ?_
    refine failsKeeping_when (keeps_throw _) (failsKeeping_of_never ?_)
    exact fails_when (setFid_never newFid _) (fails_pure _)
  | clunk fid => exact bound fun _ => failsKeeping_of_never (fails_bind (fails_modify _) fun _ => fails_pure _)
  | getattr fid => exact bound fun _ => asking fun _ => done _
  | setattr fid valid size => exact bound fun _ => failsKeeping_when (onFs_keeps indifferent _) (done _)
  | lopen fid flags =>
    refine bound fun entry => asking fun attr => failsKeeping_when (onFs_keeps indifferent _) ?_
    exact failsKeeping_of_never (bound_never (opened_never attr))
  | lcreate fid name =>
    refine directory fun path => asking fun attr => ?_
    exact failsKeeping_of_never (bound_never (opened_never attr))
  | read fid offset count =>
    refine failsKeeping_bind keeps_get fun _ => failsKeeping_bind (openPath_keeps fid) fun _ => ?_
    exact asking fun filled => failsKeeping_bind (filledBytes_keeps filled) fun _ => done _
  | write fid offset data => exact failsKeeping_bind (openPath_keeps fid) fun _ => asking fun _ => done _
  | readdir fid offset count =>
    refine failsKeeping_bind keeps_get fun _ => directory fun path => ?_
    exact failsKeeping_bind (listing_keeps indifferent.looks path) fun _ => done _
  | mkdir fid name => exact directory fun _ => asking fun _ => done _
  | unlinkat fid name => exact directory fun _ => asking fun _ => done _
  | renameat oldFid oldName newFid newName =>
    exact directory fun _ => directory fun _ => movePath_failsKeeping indifferent _ _
  | rename fid newDir name => exact bound fun _ => directory fun _ => movePath_failsKeeping indifferent _ _
  | statfs fid => exact bound fun _ => asking fun _ => done _
  | fsync fid => exact bound fun _ => asking fun _ => done _
  | flush => exact done _

theorem walk_ok {server next : Server φ} {fid newFid : FidNumber} {names : List String} {fields : List Field}
    (done : walk fid newFid names server = .ok fields next) :
    ∃ (path : Path) (qids : List Qid), fields = .u16 (UInt16.ofNat qids.length) :: qids.map .qid ∧
      qids.length ≤ names.length ∧ next.msize = server.msize ∧
      next.fids = if qids.length = names.length then bindFid server.fids newFid ⟨path, false⟩ else server.fids := by
  have same := sameSession_indifferent server
  obtain ⟨entry, mid, found, done⟩ := bind_ok.mp done
  have looked := keeps_left (lookup_keeps fid) (sameSession_refl server) found
  obtain ⟨current, mid', read, done⟩ := bind_ok.mp done
  cases read
  obtain ⟨_, done⟩ := unless_ok.mp done
  obtain ⟨⟨path, qids⟩, last, reached, done⟩ := bind_ok.mp done
  obtain ⟨kept, counted⟩ := walkFrom_counts same.looks names entry.path mid looked
  rw [reached] at kept counted
  obtain ⟨_, done⟩ := unless_ok.mp done
  have session : SameSession server last := kept
  by_cases complete : qids.length = names.length
  · rw [if_pos complete] at done
    cases done
    refine ⟨path, qids, rfl, counted _ rfl, session.msize, ?_⟩
    rw [if_pos complete, ← session.fids]
  · rw [if_neg complete] at done
    cases done
    refine ⟨path, qids, rfl, counted _ rfl, session.msize, ?_⟩
    rw [if_neg complete, session.fids]

theorem handle_asked (server : Server φ) {message : List UInt8} {request : Request} (asks : Asks message request)
    (space : UInt32) :
    (∃ fields next, perform space request server = .ok fields next ∧ (server.handle message space).1.fields = fields ∧
      (server.handle message space).2 = next) ∨
    ∃ fault next, perform space request server = .error fault next ∧ (server.handle message space).1.type = errorType ∧
      (server.handle message space).2 = next := by
  unfold handle
  rcases serve_asked server asks space with ⟨fields, next, run, _, _, _, _, same⟩ | ⟨_, next, run, _, same⟩ | ⟨next, run, same⟩
  · rw [same]
    exact .inl ⟨fields, next, run, rfl, rfl⟩
  · rw [same]
    exact .inr ⟨_, next, run, rfl, rfl⟩
  · rw [same]
    exact .inr ⟨_, next, run, rfl, rfl⟩

theorem handle_done {server next : Server φ} {message : List UInt8} {request : Request} (asks : Asks message request)
    (space : UInt32) {fields : List Field} (done : perform space request server = .ok fields next) :
    (server.handle message space).1.type ≠ errorType ∧ (server.handle message space).1.fields = fields ∧
      (server.handle message space).2 = next := by
  unfold handle
  rcases serve_asked server asks space with ⟨_, _, run, _, _, _, parsed, same⟩ | ⟨_, _, run, _⟩ | ⟨_, run, _⟩
  · rw [done] at run
    cases run
    rw [same]
    exact ⟨parse_answerable parsed, rfl, rfl⟩
  · rw [done] at run
    cases run
  · rw [done] at run
    cases run

theorem handle_error (server : Server φ) (message : List UInt8) (space : UInt32)
    (failed : (server.handle message space).1.type = errorType) :
    (server.handle message space).2 = server ∨
      ∃ request fault, perform space request server = .error fault (server.handle message space).2 := by
  have served := serve_serves server message space
  unfold handle at failed ⊢
  generalize server.serve message space = outcome at served failed
  cases served with
  | unread | unknown => exact .inl rfl
  | done _ parsed _ => exact absurd failed (parse_answerable parsed)
  | failed _ _ run | panicked _ _ run => exact .inr ⟨_, _, run⟩

theorem error_session (server : Server φ) (message : List UInt8) (space : UInt32)
    (failed : (server.handle message space).1.type = errorType) : SameSession server (server.handle message space).2 := by
  rcases handle_error server message space failed with same | ⟨request, errno, outcome⟩
  · rw [same]
    exact sameSession_refl server
  · exact perform_failsKeeping (sameSession_indifferent server) space request server (sameSession_refl server) errno _
      outcome

/-- Whatever the message asks for and whatever the file system makes of it: an answer with an error number leaves the
fids, their paths and whether they are open, and the message size. The answer to a walk has a qid for each name that
the walk has come to. Where it has fewer than names, the session is as before; else the new fid, and no other, is
bound to the place where the walk ends. -/
theorem failed_requests_unfelt (server : Server φ) (message : List UInt8) (space : UInt32) :
    let answer := server.handle message space
    (answer.1.type = errorType → SameSession server answer.2) ∧
    ∀ fid newFid names, Asks message (.walk fid newFid names) → answer.1.type ≠ errorType →
      ∃ (path : Path) (qids : List Qid), answer.1.fields = .u16 (UInt16.ofNat qids.length) :: qids.map .qid ∧
        (qids.length < names.length → SameSession server answer.2) ∧
        (names.length ≤ qids.length →
          answer.2.msize = server.msize ∧ answer.2.fids = bindFid server.fids newFid ⟨path, false⟩) := by
  intro answer
  refine ⟨error_session server message space, fun fid newFid names asks answered => ?_⟩
  rcases handle_asked server asks space with ⟨fields, next, done, shown, left⟩ | ⟨errno, next, _, failed, _⟩
  · obtain ⟨path, qids, same, counted, msize, fids⟩ := walk_ok done
    change answer.2 = next at left
    refine ⟨path, qids, shown.trans same, fun fewer => ?_, fun all => ?_⟩
    · rw [if_neg (Nat.ne_of_lt fewer)] at fids
      rw [left]
      exact ⟨fids, msize⟩
    · rw [if_pos (Nat.le_antisymm counted all)] at fids
      rw [left]
      exact ⟨msize, fids⟩
  · exact absurd failed answered

end Requests

def sharing : Server HostShare :=
  reading.foldl after (withTag "share" lettered)

def walkThroughFile : List UInt8 :=
  [23, 0, 0, 0, 110, 5, 0, 0, 0, 0, 0, 2, 0, 0, 0, 2, 0, 1, 0, 0x66, 1, 0, 0x67]

def renameMissing : List UInt8 :=
  [21, 0, 0, 0, 74, 6, 0, 0, 0, 0, 0, 1, 0, 0x67, 0, 0, 0, 0, 1, 0, 0x68]

theorem failed_requests_unfelt_halfway :
    SameSession sharing (sharing.handle renameMissing 8192).2 ∧
      SameSession sharing (sharing.handle walkThroughFile 8192).2 := by
  have missing : (sharing.handle renameMissing 8192).1.type = 7 := by cbv
  have type : (sharing.handle walkThroughFile 8192).1.type = 111 := by cbv
  have shown : (sharing.handle walkThroughFile 8192).1.fields.length = 2 := by cbv
  have asks : Asks walkThroughFile (.walk 0 2 ["f", "g"]) := ⟨110, 5, walkThroughFile.drop 7, by cbv, by cbv⟩
  have answered : (sharing.handle walkThroughFile 8192).1.type ≠ errorType := by
    rw [type]
    decide
  refine ⟨(failed_requests_unfelt sharing renameMissing 8192).1 missing, ?_⟩
  obtain ⟨path, qids, fields, fewer, _⟩ := (failed_requests_unfelt sharing walkThroughFile 8192).2 0 2 _ asks answered
  rw [fields, List.length_cons, List.length_map] at shown
  exact fewer (by rw [List.length_cons, List.length_singleton]; omega)

end RvBoard.NineP.Server
