import RvBoard.NineP.Server
import RvBoard.Proofs.Outcome

/-!
# Questions to the file system

A request looks up fids and asks the file system before it changes anything of its session. What is said of a
session without its file system holds throughout.
-/

set_option autoImplicit false

namespace RvBoard.NineP.Server

variable {φ : Type} {Holds : Server φ → Prop}

def Indifferent (Holds : Server φ → Prop) : Prop :=
  ∀ server fs, Holds server → Holds { server with fs := fs }

theorem onFs_left {α : Type} (operation : FsM φ α) (server : Server φ) :
    left (onFs operation server) = { server with fs := left (operation server.fs) } := by
  unfold onFs
  cases operation server.fs <;> rfl

theorem onFs_keeps {α : Type} (indifferent : Indifferent Holds) (operation : FsM φ α) : Keeps Holds (onFs operation) := by
  intro server start
  rw [onFs_left]
  exact indifferent server _ start

theorem onFs_ok {α : Type} {operation : FsM φ α} {server : Server φ} {value : α} {fs : φ}
    (done : operation server.fs = .ok value fs) : onFs operation server = .ok value { server with fs := fs } := by
  unfold onFs
  rw [done]

theorem onFs_error {α : Type} {operation : FsM φ α} {server : Server φ} {errno : Errno} {fs : φ}
    (failed : operation server.fs = .error errno fs) : onFs operation server = .error (.errno errno) { server with fs := fs } := by
  unfold onFs
  rw [failed]

theorem lookup_run {server : Server φ} {fid : FidNumber} {entry : Fid} (bound : server.fids.lookup fid = some entry) :
    Server.lookup fid server = .ok entry server := by
  rw [Server.lookup, bind_of_ok (get_run server), bound]
  rfl

theorem openPath_run {server : Server φ} {fid : FidNumber} {entry : Fid} (bound : server.fids.lookup fid = some entry) :
    openPath fid server = if entry.isOpen then .ok entry.path server else .error (.errno .badDescriptor) server := by
  rw [openPath, bind_of_ok (lookup_run bound)]
  cases entry.isOpen <;> rfl

theorem lookup_keeps (fid : FidNumber) : Keeps Holds (Server.lookup fid) := by
  refine keeps_bind keeps_get fun server => ?_
  cases server.fids.lookup fid with
  | none => exact keeps_throw _
  | some entry => exact keeps_pure entry

theorem openPath_keeps (fid : FidNumber) : Keeps Holds (openPath fid) :=
  keeps_bind (lookup_keeps fid) fun entry => keeps_ite (keeps_pure entry.path) (keeps_throw _)

theorem stepPath_keeps (path : Path) (name : String) : Keeps Holds (stepPath path name) := by
  unfold stepPath
  exact keeps_ite (keeps_pure _) (keeps_ite (keeps_pure _) (keeps_ite (keeps_pure _) (keeps_throw _)))

theorem opened_keeps (attr : FileAttr) : Keeps Holds (opened attr) :=
  keeps_bind keeps_get fun _ => keeps_pure _

theorem filledBytes_keeps {size : Nat} (filled : Filled size) : Keeps Holds (filledBytes filled : M φ ByteArray) := by
  unfold filledBytes
  cases filled.bytes? with
  | none => exact keeps_throw _
  | some bytes => exact keeps_pure bytes

theorem setFid_never (fid : FidNumber) (entry : Fid) : Fails (fun _ => False) (setFid fid entry : M φ Unit) :=
  fails_modify _

theorem opened_never (attr : FileAttr) : Fails (fun _ => False) (opened attr : M φ (List Field)) :=
  fails_bind fails_get fun _ => fails_pure _

-- The bytes of a message ask for a request.
def Asks (message : List UInt8) (request : Request) : Prop :=
  ∃ type tag fields, header message = .ok (type, tag) fields ∧ Request.parse type fields = .ok request

theorem asks_unique {message : List UInt8} {request other : Request} (asks : Asks message request)
    (also : Asks message other) : request = other := by
  obtain ⟨type, tag, fields, read, parsed⟩ := asks
  obtain ⟨_, _, _, again, same⟩ := also
  rw [read] at again
  cases again
  rw [parsed] at same
  exact Except.ok.inj same

variable [FileSystem φ]

structure Looks (Holds : Server φ → Prop) : Prop where
  getattr : ∀ path, Keeps Holds (onFs (FileSystem.getattr path))
  readDir : ∀ path, Keeps Holds (onFs (FileSystem.readDir path))
  read : ∀ path offset n, Keeps Holds (onFs (FileSystem.read path offset n))
  statfs : Keeps Holds (onFs FileSystem.statfs)
  fsync : ∀ path, Keeps Holds (onFs (FileSystem.fsync path))

theorem Indifferent.looks (indifferent : Indifferent Holds) : Looks Holds where
  getattr _ := onFs_keeps indifferent _
  readDir _ := onFs_keeps indifferent _
  read _ _ _ := onFs_keeps indifferent _
  statfs := onFs_keeps indifferent _
  fsync _ := onFs_keeps indifferent _

theorem directoryPath_keeps (looks : Looks Holds) (fid : FidNumber) : Keeps Holds (directoryPath fid) := by
  refine keeps_bind (lookup_keeps fid) fun entry => keeps_bind (looks.getattr _) fun _ => ?_
  exact keeps_ite (keeps_pure entry.path) (keeps_throw _)

theorem walkStep_keeps (looks : Looks Holds) (path : Path) (name : String) : Keeps Holds (walkStep path name) := by
  refine keeps_bind (looks.getattr _) fun here => keeps_when (keeps_throw _) ?_
  refine keeps_bind (stepPath_keeps path name) fun next => ?_
  exact keeps_bind (looks.getattr _) fun attr => keeps_pure _

theorem walkFrom_counts (looks : Looks Holds) (names : List String) (path : Path) :
    Ensures Holds (fun reached => reached.2.length ≤ names.length) (walkFrom path names) := by
  induction names generalizing path with
  | nil => exact ensures_pure (Nat.le_refl 0)
  | cons name rest ih =>
    have step : Keeps Holds (tryCatch (some <$> walkStep path name) fun _ => return none) := by
      refine keeps_tryCatch ?_ fun _ => keeps_pure none
      rw [map_eq_pure_bind]
      exact keeps_bind (walkStep_keeps looks path name) fun reached => keeps_pure (some reached)
    refine ensures_bind (ensures_of_keeps step) fun reached _ => ?_
    cases reached with
    | none => exact ensures_pure (Nat.zero_le _)
    | some reached => exact ensures_bind (ih reached.1) fun _ counted => ensures_pure (Nat.succ_le_succ counted)

theorem walkFrom_keeps (looks : Looks Holds) (names : List String) (path : Path) :
    Keeps Holds (walkFrom path names) :=
  fun server start => (walkFrom_counts looks names path server start).1

theorem listing_keeps (looks : Looks Holds) (path : Path) : Keeps Holds (listing path) := by
  refine keeps_bind (looks.getattr _) fun _ => keeps_bind (looks.getattr _) fun _ => ?_
  exact keeps_bind (looks.readDir _) fun _ => keeps_pure _

-- What a message comes to: it is too short, asks for nothing, or asks for a request that is carried out.
inductive Serves (server : Server φ) (message : List UInt8) (space : UInt32) : Option Message × Server φ → Prop
  | unread {why : WireError} {rest : List UInt8} (unread : header message = .error why rest) :
      Serves server message space (some (errorReply 0xffff .invalid), server)
  | unknown {type : UInt8} {tag : UInt16} {fields : List UInt8} {number : Errno}
      (read : header message = .ok (type, tag) fields) (unknown : Request.parse type fields = .error number) :
      Serves server message space (some (errorReply tag number), server)
  | done {type : UInt8} {tag : UInt16} {fields : List UInt8} {request : Request} {answer : List Field} {next : Server φ}
      (read : header message = .ok (type, tag) fields) (parsed : Request.parse type fields = .ok request)
      (done : perform space request server = .ok answer next) :
      Serves server message space (some ⟨type + 1, tag, answer⟩, next)
  | failed {type : UInt8} {tag : UInt16} {fields : List UInt8} {request : Request} {number : Errno} {next : Server φ}
      (read : header message = .ok (type, tag) fields) (parsed : Request.parse type fields = .ok request)
      (failed : perform space request server = .error (.errno number) next) :
      Serves server message space (some (errorReply tag number), next)
  | panicked {type : UInt8} {tag : UInt16} {fields : List UInt8} {request : Request} {next : Server φ}
      (read : header message = .ok (type, tag) fields) (parsed : Request.parse type fields = .ok request)
      (panicked : perform space request server = .error .panic next) : Serves server message space (none, next)

theorem serve_serves (server : Server φ) (message : List UInt8) (space : UInt32) :
    Serves server message space (server.serve message space) := by
  unfold serve
  cases read : header message with
  | error why rest => exact .unread read
  | ok head fields =>
    dsimp only
    unfold reply
    cases parsed : Request.parse head.1 fields with
    | error number => exact .unknown read parsed
    | ok request =>
      dsimp only
      cases outcome : perform space request server with
      | ok answer next => exact .done read parsed outcome
      | error fault next =>
        cases fault with
        | errno number => exact .failed read parsed outcome
        | panic => exact .panicked read parsed outcome

theorem serve_keeps {server : Server φ} (start : Holds server) (message : List UInt8) (space : UInt32)
    (performs : ∀ {type fields request}, Request.parse type fields = .ok request → Holds (left (perform space request server))) :
    Holds (server.serve message space).2 := by
  have served := serve_serves server message space
  generalize server.serve message space = outcome at served
  cases served with
  | unread | unknown => exact start
  | done _ parsed run | failed _ parsed run | panicked _ parsed run =>
    have kept := performs parsed
    rw [run] at kept
    exact kept

theorem serve_asked (server : Server φ) {message : List UInt8} {request : Request} (asks : Asks message request)
    (space : UInt32) :
    (∃ fields next, perform space request server = .ok fields next ∧
      ∃ type tag rest, Request.parse type rest = .ok request ∧
        server.serve message space = (some ⟨type + 1, tag, fields⟩, next)) ∨
    (∃ number next, perform space request server = .error (.errno number) next ∧
      ∃ tag, server.serve message space = (some (errorReply tag number), next)) ∨
    ∃ next, perform space request server = .error .panic next ∧ server.serve message space = (none, next) := by
  have served := serve_serves server message space
  generalize same : server.serve message space = outcome at served
  obtain ⟨type, tag, fields, read, parsed⟩ := asks
  cases served with
  | unread unread =>
    rw [read] at unread
    cases unread
  | unknown again unknown =>
    rw [read] at again
    cases again
    rw [parsed] at unknown
    cases unknown
  | done again same run =>
    rw [read] at again
    cases again
    rw [parsed] at same
    cases same
    exact .inl ⟨_, _, run, _, _, _, parsed, rfl⟩
  | failed again same run =>
    rw [read] at again
    cases again
    rw [parsed] at same
    cases same
    exact .inr (.inl ⟨_, _, run, _, rfl⟩)
  | panicked again same run =>
    rw [read] at again
    cases again
    rw [parsed] at same
    cases same
    exact .inr (.inr ⟨_, run, rfl⟩)

end RvBoard.NineP.Server
