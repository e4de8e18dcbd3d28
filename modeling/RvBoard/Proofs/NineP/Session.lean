import RvBoard.Proofs.NineP.Asides

/-!
# Sessions

The paths that the fids of a session are bound to are made of names, with a slash behind them at
most: walks and new files put names behind names, and a move changes the front of a path.
-/

set_option autoImplicit false

namespace RvBoard

namespace Path

def Named (names : List String) : Prop :=
  ∀ name ∈ names, NineP.isChildName name = true

inductive Placed : Path → Prop
  | plain {names : List String} (named : Named names) : Placed names
  | slashed {names : List String} (named : Named names) (some : names ≠ []) : Placed (names ++ [""])

theorem childName_segment {name : String} (child : NineP.isChildName name = true) :
    name ≠ "" ∧ name ≠ "." ∧ name ≠ ".." := by
  unfold NineP.isChildName isName at child
  simp at child
  exact ⟨child.1.1.1.1, child.1.1.1.2, child.1.1.2⟩

theorem names_named {path : Path} (named : Named path) : path.names = path := by
  unfold names
  rw [List.filter_eq_self]
  intro name member
  obtain ⟨filled, visible, _⟩ := childName_segment (named name member)
  simp [filled, visible]

theorem names_append (path : Path) (rest : List String) : names (path ++ rest) = path.names ++ names rest :=
  List.filter_append path rest

theorem Placed.names {path : Path} (placed : Placed path) : Named path.names := by
  cases placed with
  | plain named =>
    rw [names_named named]
    exact named
  | @slashed names named some =>
    have same : Path.names (names ++ [""]) = names := by
      rw [names_append, names_named named]
      simp [Path.names]
    rw [same]
    exact named

theorem trimmed_named {path : Path} (named : Named path) : path.trimmed = path := by
  unfold trimmed
  rw [if_neg]
  intro last
  exact (childName_segment (named "" (List.mem_of_getLast? last))).1 rfl

theorem Placed.trimmed {path : Path} (placed : Placed path) : path.trimmed = path.names := by
  cases placed with
  | plain named => rw [trimmed_named named, names_named named]
  | @slashed names named some =>
    rw [names_append, names_named named]
    unfold Path.trimmed
    rw [if_pos (by simp)]
    simp [Path.names]

theorem Named.append {first rest : List String} (named : Named first) (also : Named rest) : Named (first ++ rest) := by
  intro name member
  rcases List.mem_append.mp member with early | late
  · exact named name early
  · exact also name late

theorem named_single {name : String} (child : NineP.isChildName name = true) : Named [name] := by
  intro other member
  rw [List.mem_singleton.mp member]
  exact child

theorem Placed.join {path : Path} (placed : Placed path) (name : String) : path.join name = path.names ++ [name] := by
  cases path with
  | nil => rfl
  | cons first rest =>
    change Path.trimmed (first :: rest) ++ [name] = _
    rw [placed.trimmed]

theorem Placed.child {path : Path} (placed : Placed path) {name : String} (child : NineP.isChildName name = true) :
    Named (path.join name) := by
  rw [placed.join]
  exact placed.names.append (named_single child)

theorem Placed.parent {path : Path} (placed : Placed path) : Named path.parent :=
  fun name member => placed.names name ((List.dropLast_sublist path.names).subset member)

theorem joinNames_named {path : Path} (named : Named path) (some : path ≠ []) (rest : List String) :
    path.joinNames rest = path ++ if rest = [] then [""] else rest := by
  cases path with
  | nil => exact absurd rfl some
  | cons first others =>
    have same := trimmed_named named
    cases rest with
    | nil =>
      change Path.trimmed (first :: others) ++ [""] = _
      rw [same, if_pos rfl]
    | cons name rest =>
      change Path.trimmed (first :: others) ++ name :: rest = _
      rw [same, if_neg (by simp)]

theorem namesAfter_named {path start : Path} (placed : path.Placed) {rest : List String}
    (below : path.namesAfter? start = some rest) : Named rest := by
  unfold namesAfter? at below
  split at below
  · cases below
    exact fun name member => placed.names name (List.mem_of_mem_drop member)
  · cases below

end Path

namespace NineP

theorem Request.parse_valid {type : UInt8} {fields : List UInt8} {request : Request}
    (parsed : Request.parse type fields = .ok request) : request.isValid = true := by
  unfold Request.parse at parsed
  split at parsed
  · cases parsed
  split at parsed
  · cases parsed
  split at parsed
  · cases parsed
    assumption
  · cases parsed

namespace Server

variable {φ : Type}

-- Every fid is bound to the path of names.
def Orderly (server : Server φ) : Prop :=
  ∀ entry ∈ server.fids, entry.2.path.Placed

theorem orderly_indifferent : Indifferent (@Orderly φ) :=
  fun _ _ orderly => orderly

theorem onFs_fids {α : Type} (operation : FsM φ α) (server : Server φ) :
    (left (onFs operation server)).fids = server.fids := by
  rw [onFs_left]

theorem mem_of_lookup {fids : List (FidNumber × Fid)} {fid : FidNumber} {entry : Fid} (bound : fids.lookup fid = some entry) :
    (fid, entry) ∈ fids := by
  obtain ⟨before, after, same, _⟩ := List.lookup_eq_some_iff.mp bound
  rw [same]
  exact List.mem_append_right _ List.mem_cons_self

theorem lookup_ensures (fid : FidNumber) : Ensures (@Orderly φ) (fun entry => entry.path.Placed) (Server.lookup fid) := by
  refine ensures_bind ensures_get (fun server orderly => ?_)
  cases bound : server.fids.lookup fid with
  | none => exact ensures_throw _
  | some entry => exact ensures_pure (orderly _ (mem_of_lookup bound))

theorem bindFid_mem {fids : List (FidNumber × Fid)} {fid : FidNumber} {entry : Fid} {other : FidNumber × Fid}
    (member : other ∈ bindFid fids fid entry) : other = (fid, entry) ∨ other ∈ fids := by
  induction fids with
  | nil =>
    unfold bindFid at member
    exact .inl (List.mem_singleton.mp member)
  | cons first rest ih =>
    unfold bindFid at member
    split at member
    · rcases List.mem_cons.mp member with same | later
      · exact .inl same
      · exact .inr (List.mem_cons_of_mem _ later)
    · rcases List.mem_cons.mp member with same | later
      · exact .inr (List.mem_cons.mpr (.inl same))
      · exact (ih later).imp id (List.mem_cons_of_mem _)

theorem setFid_ensures (fid : FidNumber) {entry : Fid} (placed : entry.path.Placed) :
    Ensures (@Orderly φ) (fun _ => True) (setFid fid entry) := by
  refine ensures_modify (fun server orderly other member => ?_)
  rcases bindFid_mem member with rfl | old
  · exact placed
  · exact orderly other old

theorem repath_below {old new : Path} {entry : Fid} {rest : List String} (below : entry.path.namesAfter? old = some rest) :
    repath old new entry = { entry with path := new.joinNames rest } := by
  unfold repath
  rw [below]

theorem repath_placed {old new : Path} (named : Path.Named new) (some : new ≠ []) {entry : Fid} (placed : entry.path.Placed) :
    (repath old new entry).path.Placed := by
  cases below : entry.path.namesAfter? old with
  | none =>
    unfold repath
    rw [below]
    exact placed
  | some rest =>
    rw [repath_below below]
    change (new.joinNames rest).Placed
    rw [Path.joinNames_named named some]
    by_cases here : rest = []
    · rw [if_pos here]
      exact .slashed named some
    · rw [if_neg here]
      exact .plain (named.append (Path.namesAfter_named placed below))

theorem openPath_ensures (fid : FidNumber) : Ensures (@Orderly φ) Path.Placed (openPath fid) := by
  refine ensures_bind (lookup_ensures fid) (fun entry placed => ?_)
  exact ensures_ite (fun _ => ensures_pure placed) (fun _ => ensures_throw _)

section Requests

variable [FileSystem φ]

theorem directoryPath_ensures (fid : FidNumber) : Ensures (@Orderly φ) Path.Placed (directoryPath fid) := by
  refine ensures_bind (lookup_ensures fid) (fun entry placed => ?_)
  refine ensures_bind (ensures_of_keeps (onFs_keeps orderly_indifferent _)) (fun attr _ => ?_)
  exact ensures_ite (fun _ => ensures_pure placed) (fun _ => ensures_throw _)

omit [FileSystem φ] in
theorem stepPath_ensures {path : Path} (placed : path.Placed) (name : String) :
    Ensures (@Orderly φ) Path.Placed (stepPath path name) := by
  unfold stepPath
  refine ensures_ite (fun _ => ensures_pure placed) (fun _ => ?_)
  refine ensures_ite (fun _ => ensures_pure (.plain placed.parent)) (fun _ => ?_)
  exact ensures_ite (fun child => ensures_pure (.plain (placed.child child))) (fun _ => ensures_throw _)

theorem walkStep_ensures {path : Path} (placed : path.Placed) (name : String) :
    Ensures (@Orderly φ) (fun step => step.1.Placed) (walkStep path name) := by
  refine ensures_bind (ensures_of_keeps (onFs_keeps orderly_indifferent _)) (fun here _ => ?_)
  refine ensures_when (ensures_throw _) ?_
  refine ensures_bind (stepPath_ensures placed name) (fun next placed => ?_)
  exact ensures_bind (ensures_of_keeps (onFs_keeps orderly_indifferent _)) (fun attr _ => ensures_pure placed)

theorem walkFrom_ensures (names : List String) {path : Path} (placed : path.Placed) :
    Ensures (@Orderly φ) (fun reached => reached.1.Placed) (walkFrom path names) := by
  induction names generalizing path with
  | nil => exact ensures_pure placed
  | cons name rest ih =>
    have step : Ensures (@Orderly φ) (fun step : Option (Path × Qid) => ∀ reached ∈ step, reached.1.Placed)
        (tryCatch (some <$> walkStep path name) fun _ => return none) := by
      refine ensures_tryCatch ?_ (fun _ => ensures_pure (by simp))
      refine ensures_map (walkStep_ensures placed name) (fun reached placed other same => ?_)
      rw [← Option.some.inj same]
      exact placed
    refine ensures_bind step (fun reached placed => ?_)
    cases reached with
    | none => exact ensures_pure ‹_›
    | some reached => exact ensures_bind (ih (placed reached rfl)) (fun _ placed => ensures_pure placed)

theorem movePath_ensures (old : Path) {new : Path} (named : Path.Named new) (some : new ≠ []) :
    Ensures (@Orderly φ) (fun _ => True) (movePath old new) := by
  have moves : Ensures (@Orderly φ) (fun _ => True) (do
      onFs (FileSystem.rename old new)
      modify fun server => { server with fids := server.fids.map fun entry => (entry.1, repath old new entry.2) }
      return ([] : List Field)) := by
    refine ensures_bind (ensures_of_keeps (onFs_keeps orderly_indifferent _)) (fun _ _ => ?_)
    refine ensures_bind (ensures_modify (fun server orderly other member => ?_)) (fun _ _ => ensures_pure trivial)
    obtain ⟨entry, before, rfl⟩ := List.mem_map.mp member
    exact repath_placed named some (orderly entry before)
  have fails : Ensures (@Orderly φ) (fun _ : Unit => True) (fail .invalid) := ensures_throw _
  unfold movePath
  extract_lets jump
  split
  · exact ensures_bind fails (fun _ _ => moves)
  · exact moves

theorem join_some {path : Path} (placed : path.Placed) (name : String) : path.join name ≠ [] := by
  rw [placed.join]
  simp

theorem perform_ensures (space : UInt32) {request : Request} (valid : request.isValid = true) :
    Ensures (@Orderly φ) (fun _ => True) (perform space request) := by
  have onFs {α : Type} (operation : FsM φ α) : Ensures (@Orderly φ) (fun _ => True) (onFs operation) :=
    ensures_of_keeps (onFs_keeps orderly_indifferent operation)
  cases request with
  | version msize text =>
    refine ensures_bind (ensures_modify (fun server _ entry member => ?_)) (fun _ _ => ensures_pure trivial)
    cases member
  | attach fid =>
    change Ensures _ _ (attach fid)
    unfold attach
    refine ensures_when (ensures_throw _) ?_
    refine ensures_bind (onFs _) (fun attr _ => ?_)
    refine ensures_bind (setFid_ensures fid (.plain ?_)) (fun _ _ => ensures_pure trivial)
    exact fun name member => by cases member
  | walk fid newFid names =>
    refine ensures_bind (lookup_ensures fid) (fun entry placed => ?_)
    refine ensures_bind ensures_get (fun server _ => ?_)
    refine ensures_when (ensures_throw _) ?_
    refine ensures_bind (walkFrom_ensures names placed) (fun reached placed => ?_)
    refine ensures_when (ensures_throw _) ?_
    exact ensures_when (setFid_ensures newFid placed) (ensures_pure trivial)
  | clunk fid =>
    refine ensures_bind (lookup_ensures fid) (fun _ _ => ?_)
    refine ensures_bind (ensures_modify (fun server orderly entry member => ?_)) (fun _ _ => ensures_pure trivial)
    exact orderly entry (List.mem_filter.mp member |>.1)
  | getattr fid =>
    refine ensures_bind (lookup_ensures fid) (fun _ _ => ?_)
    exact ensures_bind (onFs _) (fun _ _ => ensures_pure trivial)
  | setattr fid valid size =>
    refine ensures_bind (lookup_ensures fid) (fun _ _ => ?_)
    exact ensures_when (onFs _) (ensures_pure trivial)
  | lopen fid flags =>
    refine ensures_bind (lookup_ensures fid) (fun entry placed => ?_)
    refine ensures_bind (onFs _) (fun attr _ => ?_)
    refine ensures_when (onFs _) ?_
    refine ensures_bind (setFid_ensures fid placed) (fun _ _ => ?_)
    exact ensures_bind ensures_get (fun _ _ => ensures_pure trivial)
  | lcreate fid name =>
    refine ensures_bind (directoryPath_ensures fid) (fun path placed => ?_)
    refine ensures_bind (onFs _) (fun attr _ => ?_)
    refine ensures_bind (setFid_ensures fid (.plain (placed.child valid))) (fun _ _ => ?_)
    exact ensures_bind ensures_get (fun _ _ => ensures_pure trivial)
  | read fid offset count =>
    refine ensures_bind ensures_get (fun server _ => ?_)
    refine ensures_bind (openPath_ensures fid) (fun path _ => ?_)
    refine ensures_bind (onFs _) (fun filled _ => ?_)
    exact ensures_bind (ensures_of_keeps (filledBytes_keeps filled)) (fun _ _ => ensures_pure trivial)
  | write fid offset data =>
    refine ensures_bind (openPath_ensures fid) (fun path _ => ?_)
    exact ensures_bind (onFs _) (fun _ _ => ensures_pure trivial)
  | readdir fid offset count =>
    refine ensures_bind ensures_get (fun server _ => ?_)
    refine ensures_bind (directoryPath_ensures fid) (fun path _ => ?_)
    have lists : Ensures (@Orderly φ) (fun _ => True) (listing path) := by
      refine ensures_bind (onFs _) (fun _ _ => ?_)
      refine ensures_bind (onFs _) (fun _ _ => ?_)
      exact ensures_bind (onFs _) (fun _ _ => ensures_pure trivial)
    exact ensures_bind lists (fun _ _ => ensures_pure trivial)
  | mkdir fid name =>
    refine ensures_bind (directoryPath_ensures fid) (fun path placed => ?_)
    exact ensures_bind (onFs _) (fun attr _ => ensures_pure trivial)
  | unlinkat fid name =>
    refine ensures_bind (directoryPath_ensures fid) (fun path placed => ?_)
    exact ensures_bind (onFs _) (fun attr _ => ensures_pure trivial)
  | renameat oldFid oldName newFid newName =>
    obtain ⟨_, child⟩ := Bool.and_eq_true_iff.mp valid
    refine ensures_bind (directoryPath_ensures oldFid) (fun oldPath _ => ?_)
    refine ensures_bind (directoryPath_ensures newFid) (fun newPath placed => ?_)
    exact movePath_ensures _ (placed.child child) (join_some placed newName)
  | rename fid newDir name =>
    refine ensures_bind (lookup_ensures fid) (fun entry _ => ?_)
    refine ensures_bind (directoryPath_ensures newDir) (fun path placed => ?_)
    exact movePath_ensures _ (placed.child valid) (join_some placed name)
  | statfs fid =>
    refine ensures_bind (lookup_ensures fid) (fun _ _ => ?_)
    exact ensures_bind (onFs _) (fun _ _ => ensures_pure trivial)
  | fsync fid =>
    refine ensures_bind (lookup_ensures fid) (fun _ _ => ?_)
    exact ensures_bind (onFs _) (fun _ _ => ensures_pure trivial)
  | flush => exact ensures_pure trivial

-- What a session comes to: it carries out requests, is reset, and its file system may be changed by others.
inductive Session : Server φ → Prop
  | started {server : Server φ} (unbound : server.fids = []) : Session server
  | performed {server : Server φ} (before : Session server) (space : UInt32) {request : Request}
      (valid : request.isValid = true) : Session (left (perform space request server))
  | reset {server : Server φ} (before : Session server) : Session server.reset
  | changed {server : Server φ} (before : Session server) (fs : φ) : Session { server with fs := fs }

theorem Session.handled {server : Server φ} (before : Session server) (message : List UInt8) (space : UInt32) :
    Session (server.handle message space).2 :=
  serve_keeps before message space fun parsed => before.performed space (Request.parse_valid parsed)

theorem Session.orderly {server : Server φ} (session : Session server) : server.Orderly := by
  induction session with
  | started unbound =>
    intro entry member
    rw [unbound] at member
    cases member
  | performed before space valid ih => exact (perform_ensures space valid _ ih).1
  | reset before ih => exact fun entry member => by cases member
  | changed before fs ih => exact ih

end Requests

end Server

end NineP

end RvBoard
