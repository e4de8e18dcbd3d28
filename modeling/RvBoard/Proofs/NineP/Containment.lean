import RvBoard.Proofs.NineP.Session

/-!
# Containment

No path that a session binds or that it asks its file system for leads out of the share. The
questions are seen by serving a file system that writes down what it is asked and leaves the
answers to another one.
-/

set_option autoImplicit false

namespace RvBoard

namespace Path

inductive Component where
  | root
  | current
  | above
  | normal (name : String)
deriving DecidableEq, Repr

def ordinary (path : Path) : List Component :=
  path.names.map fun name => if name = ".." then .above else .normal name

-- The components of a path. Empty and dot segments count at the front only.
def components (path : Path) : List Component :=
  match path with
  | "" :: rest => .root :: ordinary rest
  | "." :: rest => .current :: ordinary rest
  | path => ordinary path

-- Every component is the name of something in a directory.
def Contained (path : Path) : Prop :=
  ∀ component ∈ path.components, ∃ name, component = .normal name ∧
    name ≠ "" ∧ name ≠ "." ∧ name ≠ ".." ∧ '/' ∉ name.toList ∧ '\x00' ∉ name.toList

theorem childName_characters {name : String} (child : NineP.isChildName name = true) :
    '/' ∉ name.toList ∧ '\x00' ∉ name.toList := by
  unfold NineP.isChildName at child
  simp at child
  exact ⟨child.1.2, child.2⟩

theorem components_named {first : String} (child : NineP.isChildName first = true) (rest : Path) :
    components (first :: rest) = ordinary (first :: rest) := by
  obtain ⟨filled, visible, _⟩ := childName_segment child
  unfold components
  split
  · next same => exact absurd (List.cons.inj same).1 filled
  · next same => exact absurd (List.cons.inj same).1 visible
  · rfl

theorem Placed.components {path : Path} (placed : path.Placed) : path.components = path.ordinary := by
  cases placed with
  | plain named =>
    cases path with
    | nil => rfl
    | cons first rest => exact components_named (named first List.mem_cons_self) rest
  | @slashed names named some =>
    cases names with
    | nil => exact absurd rfl some
    | cons first rest => exact components_named (named first List.mem_cons_self) (rest ++ [""])

theorem Placed.contained {path : Path} (placed : path.Placed) : path.Contained := by
  intro component member
  rw [placed.components] at member
  obtain ⟨name, among, rfl⟩ := List.mem_map.mp member
  have child := placed.names name among
  obtain ⟨filled, visible, below⟩ := childName_segment child
  exact ⟨name, if_neg below, filled, visible, below, childName_characters child⟩

end Path

namespace NineP

structure Watched (φ : Type) where
  fs : φ
  asked : List Path := []

namespace Watched

variable {φ : Type}

-- An operation that is asked for paths.
def ask {α : Type} (paths : List Path) (operation : FsM φ α) : FsM (Watched φ) α := fun watched =>
  match operation watched.fs with
  | .ok value fs => .ok value ⟨fs, watched.asked ++ paths⟩
  | .error errno fs => .error errno ⟨fs, watched.asked ++ paths⟩

instance [FileSystem φ] : FileSystem (Watched φ) where
  getattr path := ask [path] (FileSystem.getattr path)
  readDir path := ask [path] (FileSystem.readDir path)
  read path offset count := ask [path] (FileSystem.read path offset count)
  write path offset data := ask [path] (FileSystem.write path offset data)
  create path := ask [path] (FileSystem.create path)
  mkdir path := ask [path] (FileSystem.mkdir path)
  remove path := ask [path] (FileSystem.remove path)
  rename old new := ask [old, new] (FileSystem.rename old new)
  truncate path size := ask [path] (FileSystem.truncate path size)
  statfs := ask [] FileSystem.statfs
  fsync path := ask [path] (FileSystem.fsync path)

end Watched

namespace Server

variable {φ : Type}

def unwatched (server : Server (Watched φ)) : Server φ where
  fs := server.fs.fs
  tag := server.tag
  msize := server.msize
  fids := server.fids

structure Within (server : Server (Watched φ)) : Prop where
  orderly : server.Orderly
  asked : ∀ path ∈ server.fs.asked, path.Placed

def unwatchedResult {α : Type} : EStateM.Result Fault (Server (Watched φ)) α → EStateM.Result Fault (Server φ) α
  | .ok value server => .ok value server.unwatched
  | .error fault server => .error fault server.unwatched

def Shadows {α : Type} (Gives : α → Prop) (watching : M (Watched φ) α) (plain : M φ α) : Prop :=
  ∀ server, server.Within → (left (watching server)).Within ∧
    unwatchedResult (watching server) = plain server.unwatched ∧ ∀ value, value? (watching server) = some value → Gives value

section Parts

variable {α β : Type} {Gives : α → Prop} {Ends : β → Prop}

theorem shadows_pure {value : α} (gives : Gives value) : Shadows (φ := φ) Gives (pure value) (pure value) := by
  intro server within
  refine ⟨within, rfl, fun other same => ?_⟩
  cases same
  exact gives

theorem shadows_throw (fault : Fault) : Shadows (φ := φ) Gives (throw fault) (throw fault) := by
  intro server within
  refine ⟨within, rfl, fun other same => ?_⟩
  cases same

theorem shadows_bind {watching : M (Watched φ) α} {plain : M φ α} {rest : α → M (Watched φ) β} {plainRest : α → M φ β}
    (starts : Shadows Gives watching plain) (follows : ∀ value, Gives value → Shadows Ends (rest value) (plainRest value)) :
    Shadows Ends (watching >>= rest) (plain >>= plainRest) := by
  intro server within
  obtain ⟨middle, same, given⟩ := starts server within
  cases outcome : watching server with
  | ok value mid =>
    rw [outcome] at middle same given
    rw [bind_of_ok outcome, bind_of_ok same.symm]
    exact follows value (given value rfl) mid middle
  | error errno mid =>
    rw [outcome] at middle same
    rw [bind_of_error outcome, bind_of_error same.symm]
    refine ⟨middle, rfl, fun value same => ?_⟩
    cases same

theorem shadows_map {watching : M (Watched φ) α} {plain : M φ α} {f : α → β} (starts : Shadows Gives watching plain)
    (follows : ∀ value, Gives value → Ends (f value)) : Shadows Ends (f <$> watching) (f <$> plain) := by
  rw [map_eq_pure_bind, map_eq_pure_bind]
  exact shadows_bind starts (fun value given => shadows_pure (follows value given))

theorem shadows_get {watching : Server (Watched φ) → M (Watched φ) α} {plain : Server φ → M φ α}
    (follows : ∀ server, server.Within → Shadows Gives (watching server) (plain server.unwatched)) :
    Shadows Gives (get >>= watching) (get >>= plain) :=
  fun server within => follows server within server within

theorem shadows_modify {watching : Server (Watched φ) → Server (Watched φ)} {plain : Server φ → Server φ}
    (kept : ∀ server, server.Within → (watching server).Within)
    (same : ∀ server, (watching server).unwatched = plain server.unwatched) :
    Shadows (fun _ => True) (modify watching) (modify plain) :=
  fun server within => ⟨kept server within, congrArg (EStateM.Result.ok _) (same server), fun _ _ => trivial⟩

theorem shadows_ite {condition : Prop} [Decidable condition] {yes no : M (Watched φ) α} {plainYes plainNo : M φ α}
    (follows : condition → Shadows Gives yes plainYes) (otherwise : ¬ condition → Shadows Gives no plainNo) :
    Shadows Gives (if condition then yes else no) (if condition then plainYes else plainNo) := by
  by_cases holds : condition
  · rw [if_pos holds, if_pos holds]
    exact follows holds
  · rw [if_neg holds, if_neg holds]
    exact otherwise holds

theorem shadows_when {condition : Prop} [Decidable condition] {step : M (Watched φ) Unit} {plainStep : M φ Unit}
    {rest : Unit → M (Watched φ) α} {plainRest : Unit → M φ α} (steps : Shadows (fun _ => True) step plainStep)
    (follows : Shadows Gives (rest ()) (plainRest ())) :
    Shadows Gives (if condition then step >>= rest else rest ())
      (if condition then plainStep >>= plainRest else plainRest ()) :=
  shadows_ite (fun _ => shadows_bind steps (fun _ _ => follows)) (fun _ => follows)

theorem shadows_tryCatch {watching : M (Watched φ) α} {plain : M φ α} {handle : Fault → M (Watched φ) α}
    {plainHandle : Fault → M φ α} (tries : Shadows Gives watching plain)
    (handles : ∀ fault, Shadows Gives (handle fault) (plainHandle fault)) :
    Shadows Gives (tryCatch watching handle) (tryCatch plain plainHandle) := by
  intro server within
  obtain ⟨middle, same, given⟩ := tries server within
  change Within (left (EStateM.tryCatch watching handle server)) ∧
    unwatchedResult (EStateM.tryCatch watching handle server) = EStateM.tryCatch plain plainHandle server.unwatched ∧
    ∀ value, value? (EStateM.tryCatch watching handle server) = some value → Gives value
  unfold EStateM.tryCatch
  cases outcome : watching server with
  | ok value mid =>
    rw [outcome] at middle same given
    rw [← same]
    exact ⟨middle, rfl, given⟩
  | error fault mid =>
    rw [outcome] at middle same
    rw [← same]
    exact handles fault mid middle

theorem shadows_ask {paths : List Path} (placed : ∀ path ∈ paths, path.Placed) (operation : FsM φ α) :
    Shadows (fun _ => True) (onFs (Watched.ask paths operation)) (onFs operation) := by
  intro server within
  have also : ∀ path ∈ server.fs.asked ++ paths, path.Placed := by
    intro path member
    rcases List.mem_append.mp member with before | now
    · exact within.asked path before
    · exact placed path now
  have run : Watched.ask paths operation server.fs = match operation server.fs.fs with
    | .ok value fs => .ok value ⟨fs, server.fs.asked ++ paths⟩
    | .error errno fs => .error errno ⟨fs, server.fs.asked ++ paths⟩ := rfl
  have plain : onFs operation server.unwatched = match operation server.fs.fs with
    | .ok value fs => .ok value { server.unwatched with fs := fs }
    | .error errno fs => .error (.errno errno) { server.unwatched with fs := fs } := rfl
  rw [plain]
  unfold onFs
  rw [run]
  cases operation server.fs.fs with
  | ok value fs => exact ⟨⟨within.orderly, also⟩, rfl, fun _ _ => trivial⟩
  | error errno fs => exact ⟨⟨within.orderly, also⟩, rfl, fun _ _ => trivial⟩

end Parts

theorem lookup_shadows (fid : FidNumber) : Shadows (φ := φ) (fun entry => entry.path.Placed) (lookup fid) (lookup fid) := by
  refine shadows_get (fun server within => ?_)
  dsimp only [unwatched]
  cases bound : server.fids.lookup fid with
  | none => exact shadows_throw _
  | some entry => exact shadows_pure (within.orderly _ (mem_of_lookup bound))

theorem setFid_shadows (fid : FidNumber) {entry : Fid} (placed : entry.path.Placed) :
    Shadows (φ := φ) (fun _ => True) (setFid fid entry) (setFid fid entry) :=
  shadows_modify (fun server within => ⟨(setFid_ensures fid placed server within.orderly).1, within.asked⟩) (fun _ => rfl)

theorem openPath_shadows (fid : FidNumber) : Shadows (φ := φ) Path.Placed (openPath fid) (openPath fid) := by
  refine shadows_bind (lookup_shadows fid) (fun entry placed => ?_)
  exact shadows_ite (fun _ => shadows_pure placed) (fun _ => shadows_throw _)

theorem stepPath_shadows {path : Path} (placed : path.Placed) (name : String) :
    Shadows (φ := φ) Path.Placed (stepPath path name) (stepPath path name) := by
  unfold stepPath
  refine shadows_ite (fun _ => shadows_pure placed) (fun _ => ?_)
  refine shadows_ite (fun _ => shadows_pure (.plain placed.parent)) (fun _ => ?_)
  exact shadows_ite (fun child => shadows_pure (.plain (placed.child child))) (fun _ => shadows_throw _)

theorem shadows_about {α : Type} {path : Path} (placed : path.Placed) (operation : FsM φ α) :
    Shadows (fun _ => True) (onFs (Watched.ask [path] operation)) (onFs operation) :=
  shadows_ask (fun _ member => List.mem_singleton.mp member ▸ placed) operation

theorem filledBytes_shadows {size : Nat} (filled : Filled size) :
    Shadows (φ := φ) (fun _ => True) (filledBytes filled) (filledBytes filled) := by
  unfold filledBytes
  cases filled.bytes? with
  | none => exact shadows_throw _
  | some bytes => exact shadows_pure trivial

theorem opened_shadows (attr : FileAttr) : Shadows (φ := φ) (fun _ => True) (opened attr) (opened attr) :=
  shadows_get (fun _ _ => shadows_pure trivial)

-- What happens to a session: a message comes in, the device is reset, others change what is served.
inductive Event (φ : Type) where
  | message (bytes : List UInt8) (space : UInt32)
  | reset
  | changed (change : φ → φ)

def Event.watched : Event φ → Event (Watched φ)
  | .message bytes space => .message bytes space
  | .reset => .reset
  | .changed change => .changed fun watched => { watched with fs := change watched.fs }

section Requests

variable [FileSystem φ]

theorem directoryPath_shadows (fid : FidNumber) : Shadows (φ := φ) Path.Placed (directoryPath fid) (directoryPath fid) := by
  refine shadows_bind (lookup_shadows fid) (fun entry placed => ?_)
  refine shadows_bind (shadows_about placed _) (fun attr _ => ?_)
  exact shadows_ite (fun _ => shadows_pure placed) (fun _ => shadows_throw _)

theorem walkStep_shadows {path : Path} (placed : path.Placed) (name : String) :
    Shadows (φ := φ) (fun step => step.1.Placed) (walkStep path name) (walkStep path name) := by
  refine shadows_bind (shadows_about placed _) (fun here _ => ?_)
  refine shadows_when (shadows_throw _) ?_
  refine shadows_bind (stepPath_shadows placed name) (fun next placed => ?_)
  exact shadows_bind (shadows_about placed _) (fun attr _ => shadows_pure placed)

theorem walkFrom_shadows (names : List String) {path : Path} (placed : path.Placed) :
    Shadows (φ := φ) (fun reached => reached.1.Placed) (walkFrom path names) (walkFrom path names) := by
  induction names generalizing path with
  | nil => exact shadows_pure placed
  | cons name rest ih =>
    have step : Shadows (φ := φ) (fun step : Option (Path × Qid) => ∀ reached ∈ step, reached.1.Placed)
        (tryCatch (some <$> walkStep path name) fun _ => return none)
        (tryCatch (some <$> walkStep path name) fun _ => return none) := by
      refine shadows_tryCatch ?_ (fun _ => shadows_pure (by simp))
      refine shadows_map (walkStep_shadows placed name) (fun reached placed other same => ?_)
      rw [← Option.some.inj same]
      exact placed
    refine shadows_bind step (fun reached placed => ?_)
    cases reached with
    | none => exact shadows_pure ‹_›
    | some reached => exact shadows_bind (ih (placed reached rfl)) (fun _ placed => shadows_pure placed)

theorem movePath_shadows {old new : Path} (placed : old.Placed) (named : Path.Named new) (some : new ≠ []) :
    Shadows (φ := φ) (fun _ => True) (movePath old new) (movePath old new) := by
  have both : ∀ path ∈ [old, new], path.Placed := by
    intro path member
    rcases List.mem_cons.mp member with rfl | last
    · exact placed
    · exact List.mem_singleton.mp last ▸ .plain named
  have follow : ∀ server : Server (Watched φ), server.Within →
      { server with fids := server.fids.map fun entry => (entry.1, repath old new entry.2) : Server (Watched φ) }.Within := by
    refine fun server within => ⟨fun other member => ?_, within.asked⟩
    obtain ⟨entry, before, rfl⟩ := List.mem_map.mp member
    exact repath_placed named some (within.orderly entry before)
  have moves : Shadows (φ := φ) (fun _ => True)
      (do
        onFs (FileSystem.rename old new)
        modify fun server => { server with fids := server.fids.map fun entry => (entry.1, repath old new entry.2) }
        return ([] : List Field))
      (do
        onFs (FileSystem.rename old new)
        modify fun server => { server with fids := server.fids.map fun entry => (entry.1, repath old new entry.2) }
        return ([] : List Field)) := by
    refine shadows_bind (shadows_ask both _) (fun _ _ => ?_)
    exact shadows_bind (shadows_modify follow (fun _ => rfl)) (fun _ _ => shadows_pure trivial)
  have fails : Shadows (φ := φ) (fun _ : Unit => True) (fail .invalid) (fail .invalid) := shadows_throw _
  unfold movePath
  cases new.namesAfter? old with
  | none => exact moves
  | some rest =>
    cases rest with
    | nil => exact moves
    | cons name rest => exact shadows_bind fails (fun _ _ => moves)

theorem listing_shadows {path : Path} (placed : path.Placed) :
    Shadows (φ := φ) (fun _ => True) (listing path) (listing path) := by
  refine shadows_bind (shadows_about placed _) (fun here _ => ?_)
  refine shadows_bind (shadows_about (.plain placed.parent) _) (fun above _ => ?_)
  exact shadows_bind (shadows_about placed _) (fun _ _ => shadows_pure trivial)

theorem perform_shadows (space : UInt32) {request : Request} (valid : request.isValid = true) :
    Shadows (φ := φ) (fun _ => True) (perform space request) (perform space request) := by
  cases request with
  | version msize text =>
    refine shadows_bind (shadows_modify (fun server within => ⟨fun entry member => ?_, within.asked⟩) (fun _ => rfl))
      (fun _ _ => shadows_pure trivial)
    cases member
  | attach fid =>
    have root : Path.Placed [] := .plain fun name member => by cases member
    change Shadows _ (attach fid) (attach fid)
    unfold attach
    refine shadows_when (shadows_throw _) ?_
    refine shadows_bind (shadows_about root _) (fun attr _ => ?_)
    exact shadows_bind (setFid_shadows fid root) (fun _ _ => shadows_pure trivial)
  | walk fid newFid names =>
    refine shadows_bind (lookup_shadows fid) (fun entry placed => ?_)
    refine shadows_get (fun server _ => ?_)
    refine shadows_when (shadows_throw _) ?_
    refine shadows_bind (walkFrom_shadows names placed) (fun reached placed => ?_)
    refine shadows_when (shadows_throw _) ?_
    exact shadows_when (setFid_shadows newFid placed) (shadows_pure trivial)
  | clunk fid =>
    refine shadows_bind (lookup_shadows fid) (fun _ _ => ?_)
    refine shadows_bind (shadows_modify (fun server within => ⟨fun entry member => ?_, within.asked⟩) (fun _ => rfl))
      (fun _ _ => shadows_pure trivial)
    exact within.orderly entry (List.mem_filter.mp member |>.1)
  | getattr fid =>
    refine shadows_bind (lookup_shadows fid) (fun entry placed => ?_)
    exact shadows_bind (shadows_about placed _) (fun _ _ => shadows_pure trivial)
  | setattr fid valid size =>
    refine shadows_bind (lookup_shadows fid) (fun entry placed => ?_)
    exact shadows_when (shadows_about placed _) (shadows_pure trivial)
  | lopen fid flags =>
    refine shadows_bind (lookup_shadows fid) (fun entry placed => ?_)
    refine shadows_bind (shadows_about placed _) (fun attr _ => ?_)
    refine shadows_when (shadows_about placed _) ?_
    exact shadows_bind (setFid_shadows fid placed) (fun _ _ => opened_shadows attr)
  | lcreate fid name =>
    refine shadows_bind (directoryPath_shadows fid) (fun path placed => ?_)
    have fresh : Path.Placed (path.join name) := .plain (placed.child valid)
    refine shadows_bind (shadows_about fresh _) (fun attr _ => ?_)
    exact shadows_bind (setFid_shadows fid fresh) (fun _ _ => opened_shadows attr)
  | read fid offset count =>
    refine shadows_get (fun server _ => ?_)
    refine shadows_bind (openPath_shadows fid) (fun path placed => ?_)
    refine shadows_bind (shadows_about placed _) (fun filled _ => ?_)
    exact shadows_bind (filledBytes_shadows filled) (fun _ _ => shadows_pure trivial)
  | write fid offset data =>
    refine shadows_bind (openPath_shadows fid) (fun path placed => ?_)
    exact shadows_bind (shadows_about placed _) (fun _ _ => shadows_pure trivial)
  | readdir fid offset count =>
    refine shadows_get (fun server _ => ?_)
    refine shadows_bind (directoryPath_shadows fid) (fun path placed => ?_)
    exact shadows_bind (listing_shadows placed) (fun _ _ => shadows_pure trivial)
  | mkdir fid name =>
    refine shadows_bind (directoryPath_shadows fid) (fun path placed => ?_)
    exact shadows_bind (shadows_about (.plain (placed.child valid)) _) (fun _ _ => shadows_pure trivial)
  | unlinkat fid name =>
    refine shadows_bind (directoryPath_shadows fid) (fun path placed => ?_)
    exact shadows_bind (shadows_about (.plain (placed.child valid)) _) (fun _ _ => shadows_pure trivial)
  | renameat oldFid oldName newFid newName =>
    obtain ⟨oldChild, newChild⟩ := Bool.and_eq_true_iff.mp valid
    refine shadows_bind (directoryPath_shadows oldFid) (fun oldPath oldPlaced => ?_)
    refine shadows_bind (directoryPath_shadows newFid) (fun newPath newPlaced => ?_)
    exact movePath_shadows (.plain (oldPlaced.child oldChild)) (newPlaced.child newChild) (join_some newPlaced newName)
  | rename fid newDir name =>
    refine shadows_bind (lookup_shadows fid) (fun entry placed => ?_)
    refine shadows_bind (directoryPath_shadows newDir) (fun path newPlaced => ?_)
    exact movePath_shadows placed (newPlaced.child valid) (join_some newPlaced name)
  | statfs fid =>
    refine shadows_bind (lookup_shadows fid) (fun _ _ => ?_)
    exact shadows_bind (shadows_ask (fun _ member => by cases member) _) (fun _ _ => shadows_pure trivial)
  | fsync fid =>
    refine shadows_bind (lookup_shadows fid) (fun entry placed => ?_)
    exact shadows_bind (shadows_about placed _) (fun _ _ => shadows_pure trivial)
  | flush => exact shadows_pure trivial

def after (server : Server φ) : Event φ → Server φ
  | .message bytes space => (server.handle bytes space).2
  | .reset => server.reset
  | .changed change => { server with fs := change server.fs }

theorem serve_within {server : Server (Watched φ)} (within : server.Within) (message : List UInt8) (space : UInt32) :
    (server.serve message space).2.Within ∧ server.unwatched.serve message space =
      ((server.serve message space).1, (server.serve message space).2.unwatched) := by
  unfold serve
  cases header message with
  | error errno rest => exact ⟨within, rfl⟩
  | ok head fields =>
    dsimp only
    unfold reply
    cases parsed : Request.parse head.1 fields with
    | error errno => exact ⟨within, rfl⟩
    | ok request =>
      obtain ⟨kept, same, _⟩ := perform_shadows space (Request.parse_valid parsed) server within
      dsimp only
      rw [← same]
      cases outcome : perform space request server with
      | ok answer next =>
        rw [outcome] at kept
        exact ⟨kept, rfl⟩
      | error fault next =>
        rw [outcome] at kept
        cases fault with
        | errno number => exact ⟨kept, rfl⟩
        | panic => exact ⟨kept, rfl⟩

theorem handle_within {server : Server (Watched φ)} (within : server.Within) (message : List UInt8) (space : UInt32) :
    (server.handle message space).2.Within ∧ (server.unwatched.handle message space) =
      ((server.handle message space).1, (server.handle message space).2.unwatched) := by
  obtain ⟨kept, same⟩ := serve_within within message space
  unfold handle
  rw [same]
  exact ⟨kept, rfl⟩

theorem after_within {server : Server (Watched φ)} (within : server.Within) (event : Event φ) :
    (server.after event.watched).Within ∧ (server.after event.watched).unwatched = server.unwatched.after event := by
  cases event with
  | message bytes space =>
    obtain ⟨kept, same⟩ := handle_within within bytes space
    exact ⟨kept, (congrArg Prod.snd same).symm⟩
  | reset => exact ⟨⟨fun entry member => (by cases member), within.asked⟩, rfl⟩
  | changed change => exact ⟨⟨within.orderly, within.asked⟩, rfl⟩

theorem run_within {server : Server (Watched φ)} (within : server.Within) (events : List (Event φ)) :
    ((events.map Event.watched).foldl after server).Within ∧
      ((events.map Event.watched).foldl after server).unwatched = events.foldl after server.unwatched := by
  induction events generalizing server with
  | nil => exact ⟨within, rfl⟩
  | cons event events ih =>
    obtain ⟨kept, same⟩ := after_within within event
    obtain ⟨ends, equal⟩ := ih kept
    exact ⟨ends, equal.trans (by rw [same]; rfl)⟩

/-- Whatever messages a session gets, whatever becomes of the files under it and whenever it is reset: every path that a
fid is bound to and every path that the file system was asked for has the names of directory entries as components and
nothing else. The session is the one in which nobody writes the questions down. -/
theorem paths_contained (fs : φ) (tag : String) (events : List (Event φ)) :
    let server := (events.map Event.watched).foldl after (withTag tag (⟨fs, []⟩ : Watched φ))
    server.unwatched = events.foldl after (withTag tag fs) ∧
      (∀ entry ∈ server.fids, entry.2.path.Contained) ∧ ∀ path ∈ server.fs.asked, path.Contained := by
  have start : (withTag tag (⟨fs, []⟩ : Watched φ)).Within :=
    ⟨fun entry member => (by cases member), fun path member => (by cases member)⟩
  obtain ⟨within, same⟩ := run_within start events
  refine ⟨same, fun entry member => ?_, fun path member => ?_⟩
  · exact (within.orderly entry member).contained
  · exact (within.asked path member).contained

end Requests

end Server

end NineP

end RvBoard
