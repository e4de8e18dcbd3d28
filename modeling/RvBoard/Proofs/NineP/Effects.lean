import RvBoard.Proofs.NineP.Asides

/-!
# What requests change

Every request looks at the session and at files. Some requests change the session, and some change files; what is said
of the rest of a server holds as before.
-/

set_option autoImplicit false

namespace RvBoard.NineP

namespace Request

def Binds : Request → Prop
  | .version .. | .attach .. | .walk .. | .clunk .. | .lopen .. | .lcreate .. | .renameat .. | .rename .. => True
  | _ => False

def Alters : Request → Prop
  | .setattr _ valid _ => valid &&& setattrSize ≠ 0
  | .lopen _ flags => flags &&& openTruncate ≠ 0
  | .lcreate .. | .write .. | .mkdir .. | .unlinkat .. | .renameat .. | .rename .. => True
  | _ => False

end Request

namespace Server

variable {φ : Type} [FileSystem φ]

structure Bears (request : Request) (Holds : Server φ → Prop) : Prop where
  looks : Looks Holds
  session : request.Binds →
    ∀ server msize fids, Holds server → Holds { server with msize := msize, fids := fids }
  files : request.Alters → Indifferent Holds

variable {request : Request} {Holds : Server φ → Prop}

theorem Bears.setFid (bears : Bears request Holds) (binds : request.Binds) (fid : FidNumber) (entry : Fid) :
    Keeps Holds (setFid fid entry) :=
  keeps_modify fun server start => bears.session binds server _ _ start

theorem movePath_keeps (bears : Bears request Holds) (binds : request.Binds) (alters : request.Alters) (old new : Path) :
    Keeps Holds (movePath old new) := by
  have moves : Keeps Holds (do
      onFs (FileSystem.rename old new)
      modify fun server => { server with fids := server.fids.map fun entry => (entry.1, repath old new entry.2) }
      return ([] : List Field)) := by
    refine keeps_bind (onFs_keeps (bears.files alters) _) fun _ => keeps_bind ?_ fun _ => keeps_pure _
    exact keeps_modify fun server start => bears.session binds server _ _ start
  unfold movePath
  extract_lets jump
  split
  · exact keeps_bind (keeps_throw _) fun _ => moves
  · exact moves

theorem perform_keeps (bears : Bears request Holds) (space : UInt32) : Keeps Holds (perform space request) := by
  have looks := bears.looks
  have altered {α : Type} (alters : request.Alters) (operation : FsM φ α) : Keeps Holds (onFs operation) :=
    onFs_keeps (bears.files alters) operation
  -- A file is truncated only where the request says so.
  have truncates {condition : Prop} [Decidable condition] (asked : condition → request.Alters) {operation : FsM φ Unit}
      {rest : Unit → M φ (List Field)} (follows : Keeps Holds (rest ())) :
      Keeps Holds (if condition then onFs operation >>= rest else rest ()) := by
    by_cases holds : condition
    · rw [if_pos holds]
      exact keeps_bind (altered (asked holds) _) fun _ => follows
    · rw [if_neg holds]
      exact follows
  cases request with
  | version msize text =>
    exact keeps_bind (keeps_modify fun server start => bears.session trivial server _ _ start) fun _ => keeps_pure _
  | attach fid =>
    change Keeps _ (attach fid)
    unfold attach
    refine keeps_when (keeps_throw _) (keeps_bind (looks.getattr _) fun _ => ?_)
    exact keeps_bind (bears.setFid trivial fid _) fun _ => keeps_pure _
  | walk fid newFid names =>
    refine keeps_bind (lookup_keeps fid) fun entry => keeps_bind keeps_get fun server => ?_
    refine keeps_when (keeps_throw _) (keeps_bind (walkFrom_keeps looks names _) fun reached => ?_)
    exact keeps_when (keeps_throw _) (keeps_when (bears.setFid trivial newFid _) (keeps_pure _))
  | clunk fid =>
    refine keeps_bind (lookup_keeps fid) fun _ => keeps_bind ?_ fun _ => keeps_pure _
    exact keeps_modify fun server start => bears.session trivial server _ _ start
  | getattr fid => exact keeps_bind (lookup_keeps fid) fun _ => keeps_bind (looks.getattr _) fun _ => keeps_pure _
  | setattr fid valid size =>
    refine keeps_bind (lookup_keeps fid) fun _ => ?_
    exact truncates (fun asked => bne_iff_ne.mp asked) (keeps_pure [])
  | lopen fid flags =>
    refine keeps_bind (lookup_keeps fid) fun entry => keeps_bind (looks.getattr _) fun attr => ?_
    refine truncates (fun asked => bne_iff_ne.mp (Bool.and_eq_true_iff.mp asked).1) ?_
    exact keeps_bind (bears.setFid trivial fid _) fun _ => opened_keeps attr
  | lcreate fid name =>
    refine keeps_bind (directoryPath_keeps looks fid) fun path => keeps_bind (altered trivial _) fun attr => ?_
    exact keeps_bind (bears.setFid trivial fid _) fun _ => opened_keeps attr
  | read fid offset count =>
    refine keeps_bind keeps_get fun server => keeps_bind (openPath_keeps fid) fun path => ?_
    exact keeps_bind (looks.read _ _ _) fun filled => keeps_bind (filledBytes_keeps filled) fun _ => keeps_pure _
  | write fid offset data =>
    exact keeps_bind (openPath_keeps fid) fun path => keeps_bind (altered trivial _) fun _ => keeps_pure _
  | readdir fid offset count =>
    refine keeps_bind keeps_get fun server => keeps_bind (directoryPath_keeps looks fid) fun path => ?_
    exact keeps_bind (listing_keeps looks path) fun _ => keeps_pure _
  | mkdir fid name =>
    exact keeps_bind (directoryPath_keeps looks fid) fun _ => keeps_bind (altered trivial _) fun _ => keeps_pure _
  | unlinkat fid name =>
    exact keeps_bind (directoryPath_keeps looks fid) fun _ => keeps_bind (altered trivial _) fun _ => keeps_pure _
  | renameat oldFid oldName newFid newName =>
    refine keeps_bind (directoryPath_keeps looks oldFid) fun _ => ?_
    exact keeps_bind (directoryPath_keeps looks newFid) fun _ => movePath_keeps bears trivial trivial _ _
  | rename fid newDir name =>
    refine keeps_bind (lookup_keeps fid) fun _ => ?_
    exact keeps_bind (directoryPath_keeps looks newDir) fun _ => movePath_keeps bears trivial trivial _ _
  | statfs fid => exact keeps_bind (lookup_keeps fid) fun _ => keeps_bind looks.statfs fun _ => keeps_pure _
  | fsync fid => exact keeps_bind (lookup_keeps fid) fun _ => keeps_bind (looks.fsync _) fun _ => keeps_pure _
  | flush => exact keeps_pure _

end Server

end RvBoard.NineP
