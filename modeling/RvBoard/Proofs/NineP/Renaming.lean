import Mathlib
import RvBoard.Proofs.NineP.Session
import RvBoard.Proofs.Share.TrailingSlash

/-!
# Fids and renaming

A rename takes the fids at and below the old place along. One below it gets the path that a walk to
the new place comes to. The one of the moved object itself gets this path with a slash behind it,
which is as good for a directory and useless for anything else.
-/

set_option autoImplicit false

namespace RvBoard.NineP

inductive FileRequest where
  | getattr
  | setattr (valid : UInt32) (size : UInt64)
  | lopen (flags : UInt32)
  | read (offset : UInt64) (count : UInt32)
  | write (offset : UInt64) (data : List UInt8)
  | fsync

def FileRequest.through (request : FileRequest) (fid : FidNumber) : Request :=
  match request with
  | getattr => .getattr fid
  | setattr valid size => .setattr fid valid size
  | lopen flags => .lopen fid flags
  | read offset count => .read fid offset count
  | write offset data => .write fid offset data
  | fsync => .fsync fid

namespace Server

variable {φ : Type}

-- What a client sees of an outcome, and the file system that it leaves.
def answered {α : Type} : EStateM.Result Fault (Server φ) α → Except Fault α × φ
  | .ok answer server => (.ok answer, server.fs)
  | .error fault server => (.error fault, server.fs)

theorem onFs_congr {α : Type} {first second : FsM φ α} {server : Server φ} (same : first server.fs = second server.fs) :
    onFs first server = onFs second server := by
  unfold onFs
  rw [same]

theorem bind_congr_at {ε σ α β : Type} {first second : EStateM ε σ α} {rest : α → EStateM ε σ β} {state : σ}
    (same : first state = second state) : (first >>= rest) state = (second >>= rest) state := by
  change EStateM.bind first rest state = EStateM.bind second rest state
  unfold EStateM.bind
  rw [same]

variable [FileSystem φ]

-- Requests through either fid are answered in the same way, and do the same.
def Alike (server : Server φ) (fid other : FidNumber) : Prop :=
  ∀ (request : FileRequest) space,
    answered (perform space (request.through fid) server) = answered (perform space (request.through other) server)

structure SameAt (fs : φ) (path other : Path) : Prop where
  getattr : FileSystem.getattr path fs = FileSystem.getattr other fs
  truncate : ∀ size, FileSystem.truncate path size fs = FileSystem.truncate other size fs
  emptied : ∀ attr next, FileSystem.getattr other fs = .ok attr next → attr.kind = .file →
    FileSystem.truncate path 0 next = FileSystem.truncate other 0 next
  read : ∀ offset n, FileSystem.read path offset n fs = FileSystem.read other offset n fs
  write : ∀ offset bytes, FileSystem.write path offset bytes fs = FileSystem.write other offset bytes fs
  fsync : FileSystem.fsync path fs = FileSystem.fsync other fs

theorem sameAt_refl (fs : φ) (path : Path) : SameAt fs path path :=
  ⟨rfl, fun _ => rfl, fun _ _ _ _ => rfl, fun _ _ => rfl, fun _ _ => rfl, rfl⟩

theorem alike_of_sameAt {server : Server φ} {fid other : FidNumber} {path place : Path} {isOpen : Bool}
    (bound : server.fids.lookup fid = some ⟨path, isOpen⟩) (fresh : server.fids.lookup other = some ⟨place, isOpen⟩)
    (same : SameAt server.fs path place) : server.Alike fid other := by
  intro request space
  cases request with
  | getattr =>
    change answered (Server.getattr fid server) = answered (Server.getattr other server)
    unfold Server.getattr
    rw [bind_of_ok (lookup_run bound), bind_of_ok (lookup_run fresh), bind_congr_at (onFs_congr same.getattr)]
  | setattr valid size =>
    change answered (Server.setattr fid valid size server) = answered (Server.setattr other valid size server)
    unfold Server.setattr
    rw [bind_of_ok (lookup_run bound), bind_of_ok (lookup_run fresh)]
    dsimp only
    split
    · rw [bind_congr_at (onFs_congr (same.truncate size))]
    · rfl
  | lopen flags =>
    change answered (Server.lopen fid flags server) = answered (Server.lopen other flags server)
    unfold Server.lopen
    rw [bind_of_ok (lookup_run bound), bind_of_ok (lookup_run fresh), bind_congr_at (onFs_congr same.getattr)]
    cases shown : FileSystem.getattr place server.fs with
    | error errno fs => rw [bind_of_error (onFs_error shown), bind_of_error (onFs_error shown)]
    | ok attr fs =>
      rw [bind_of_ok (onFs_ok shown), bind_of_ok (onFs_ok shown)]
      by_cases emptied : (flags &&& openTruncate != 0 && attr.kind = .file) = true
      · have file : attr.kind = .file := by simpa using (Bool.and_eq_true_iff.mp emptied).2
        dsimp only
        rw [if_pos emptied, if_pos emptied, bind_congr_at (onFs_congr (same.emptied attr fs shown file))]
        cases outcome : FileSystem.truncate place 0 fs with
        | error errno fs => rw [bind_of_error (onFs_error outcome), bind_of_error (onFs_error outcome)]
        | ok done fs =>
          rw [bind_of_ok (onFs_ok outcome), bind_of_ok (onFs_ok outcome)]
          rfl
      · dsimp only
        rw [if_neg emptied, if_neg emptied]
        rfl
  | read offset count =>
    change answered (Server.read fid offset count space server) = answered (Server.read other offset count space server)
    unfold Server.read
    rw [bind_of_ok (get_run server), bind_of_ok (get_run server)]
    have first := openPath_run bound
    have second := openPath_run fresh
    cases isOpen with
    | false => rw [bind_of_error first, bind_of_error second]
    | true => rw [bind_of_ok first, bind_of_ok second, bind_congr_at (onFs_congr (same.read offset _))]
  | write offset data =>
    change answered (Server.write fid offset data server) = answered (Server.write other offset data server)
    unfold Server.write
    have first := openPath_run bound
    have second := openPath_run fresh
    cases isOpen with
    | false => rw [bind_of_error first, bind_of_error second]
    | true => rw [bind_of_ok first, bind_of_ok second, bind_congr_at (onFs_congr (same.write offset _))]
  | fsync =>
    change answered (Server.fsync fid server) = answered (Server.fsync other server)
    unfold Server.fsync
    rw [bind_of_ok (lookup_run bound), bind_of_ok (lookup_run fresh), bind_congr_at (onFs_congr same.fsync)]

-- A request moves what is at one path to another.
inductive Moves (server : Server φ) : Request → Path → Path → Prop
  | rename {fid newDir : FidNumber} {name : String} {entry dir : Fid} (bound : server.fids.lookup fid = some entry)
      (target : server.fids.lookup newDir = some dir) : Moves server (.rename fid newDir name) entry.path (dir.path.join name)
  | renameat {oldFid newFid : FidNumber} {oldName newName : String} {oldDir newDir : Fid}
      (source : server.fids.lookup oldFid = some oldDir) (target : server.fids.lookup newFid = some newDir) :
      Moves server (.renameat oldFid oldName newFid newName) (oldDir.path.join oldName) (newDir.path.join newName)

theorem directoryPath_ok {server next : Server φ} {fid : FidNumber} {entry : Fid} {path : Path}
    (bound : server.fids.lookup fid = some entry) (done : directoryPath fid server = .ok path next) :
    path = entry.path ∧ next.fids = server.fids := by
  rw [directoryPath, bind_of_ok (lookup_run bound)] at done
  obtain ⟨attr, mid, shown, rest⟩ := bind_ok.mp done
  have kept := onFs_fids (FileSystem.getattr entry.path) server
  rw [shown] at kept
  by_cases directory : attr.kind = .directory
  · rw [if_pos directory] at rest
    cases rest
    exact ⟨rfl, kept⟩
  · rw [if_neg directory] at rest
    cases rest

theorem movePath_ok {server next : Server φ} {old new : Path} {answer : List Field}
    (done : movePath old new server = .ok answer next) :
    next.fids = server.fids.map fun entry => (entry.1, repath old new entry.2) := by
  have moved {final : Server φ} {fields : List Field}
      (run : (do
        onFs (FileSystem.rename old new)
        modify fun server => { server with fids := server.fids.map fun entry => (entry.1, repath old new entry.2) }
        return ([] : List Field) : M φ (List Field)) server = .ok fields final) :
      final.fids = server.fids.map fun entry => (entry.1, repath old new entry.2) := by
    obtain ⟨_, mid, renamed, rest⟩ := bind_ok.mp run
    have kept := onFs_fids (FileSystem.rename old new) server
    rw [renamed] at kept
    cases rest
    exact congrArg (List.map _) kept
  unfold movePath at done
  cases below : new.namesAfter? old with
  | none =>
    rw [below] at done
    exact moved done
  | some rest =>
    rw [below] at done
    cases rest with
    | nil => exact moved done
    | cons name rest => cases done

theorem moves_fids {server next : Server φ} {request : Request} {old new : Path} {space : UInt32} {answer : List Field}
    (moves : Moves server request old new) (done : perform space request server = .ok answer next) :
    next.fids = server.fids.map fun entry => (entry.1, repath old new entry.2) := by
  cases moves with
  | @rename fid newDir name entry dir bound target =>
    change Server.rename fid newDir name server = _ at done
    rw [Server.rename, bind_of_ok (lookup_run bound)] at done
    obtain ⟨path, mid, reached, rest⟩ := bind_ok.mp done
    obtain ⟨rfl, kept⟩ := directoryPath_ok target reached
    rw [movePath_ok rest, kept]
  | @renameat oldFid newFid oldName newName oldDir newDir source target =>
    change Server.renameat oldFid oldName newFid newName server = _ at done
    obtain ⟨oldPath, mid, reached, rest⟩ := bind_ok.mp done
    obtain ⟨rfl, kept⟩ := directoryPath_ok source reached
    obtain ⟨newPath, last, reached, rest⟩ := bind_ok.mp rest
    rw [← kept] at target
    obtain ⟨rfl, keptToo⟩ := directoryPath_ok target reached
    rw [movePath_ok rest, keptToo, kept]

omit [FileSystem φ] in
theorem lookup_map (fids : List (FidNumber × Fid)) (change : Fid → Fid) (fid : FidNumber) :
    (fids.map fun entry => (entry.1, change entry.2)).lookup fid = (fids.lookup fid).map change := by
  induction fids with
  | nil => rfl
  | cons first rest ih =>
    obtain ⟨key, entry⟩ := first
    cases here : fid == key with
    | true => simp only [List.map_cons, List.lookup_cons, here, Option.map_some]
    | false => simp only [List.map_cons, List.lookup_cons, here, ih]

omit [FileSystem φ] in
theorem moves_named {server : Server φ} (orderly : server.Orderly) {request : Request} (valid : request.isValid = true)
    {old new : Path} (moves : Moves server request old new) : Path.Named new ∧ new ≠ [] := by
  cases moves with
  | rename bound target =>
    have placed := orderly _ (mem_of_lookup target)
    exact ⟨placed.child valid, join_some placed _⟩
  | renameat source target =>
    have placed := orderly _ (mem_of_lookup target)
    exact ⟨placed.child (Bool.and_eq_true_iff.mp valid).2, join_some placed _⟩

theorem walkStep_child {path : Path} (start : Path.Named path) {name : String} (child : isChildName name = true) :
    Ensures (fun _ : Server φ => True) (fun step => step.1 = path ++ [name]) (walkStep path name) := by
  have anyFs {α : Type} (operation : FsM φ α) : Ensures (fun _ => True) (fun _ => True) (onFs operation) :=
    ensures_of_keeps (fun _ _ => trivial)
  obtain ⟨_, visible, below⟩ := Path.childName_segment child
  refine ensures_bind (anyFs _) (fun here _ => ?_)
  refine ensures_when (ensures_throw _) ?_
  have step : Ensures (fun _ : Server φ => True) (fun next => next = path ++ [name]) (stepPath path name) := by
    unfold stepPath
    rw [if_neg visible, if_neg below, if_pos child]
    refine ensures_pure ?_
    rw [(Path.Placed.plain start).join, Path.names_named start]
  exact ensures_bind step (fun next same => ensures_bind (anyFs _) (fun attr _ => ensures_pure same))

theorem walkFrom_complete {names : List String} (named : Path.Named names) {path : Path} (start : Path.Named path) :
    Ensures (fun _ : Server φ => True) (fun reached => reached.2.length = names.length → reached.1 = path ++ names)
      (walkFrom path names) := by
  induction names generalizing path with
  | nil => exact ensures_pure (fun _ => (List.append_nil _).symm)
  | cons name rest ih =>
    have child := named name List.mem_cons_self
    have step : Ensures (fun _ : Server φ => True)
        (fun step : Option (Path × Qid) => ∀ reached ∈ step, reached.1 = path ++ [name])
        (tryCatch (some <$> walkStep path name) fun _ => return none) := by
      refine ensures_tryCatch ?_ (fun _ => ensures_pure (by simp))
      refine ensures_map (walkStep_child start child) (fun reached same other here => ?_)
      rw [← Option.some.inj here]
      exact same
    refine ensures_bind step (fun reached same => ?_)
    cases reached with
    | none => exact ensures_pure (fun complete => by cases complete)
    | some reached =>
      have here : reached.1 = path ++ [name] := same reached rfl
      have onward := ih (fun other member => named other (List.mem_cons_of_mem _ member))
        (start.append (Path.named_single child))
      rw [← here] at onward
      refine ensures_bind onward (fun last walked => ensures_pure (fun complete => ?_))
      rw [walked (Nat.succ.inj complete), here, List.append_assoc]
      rfl

omit [FileSystem φ] in
theorem passed {α : Type} {condition : Prop} [Decidable condition] {errno : Errno} {rest : Unit → M φ α}
    {server next : Server φ} {value : α}
    (done : (if condition then fail errno >>= rest else rest ()) server = .ok value next) :
    rest () server = .ok value next := by
  by_cases refused : condition
  · rw [if_pos refused] at done
    cases done
  · rw [if_neg refused] at done
    exact done

omit [FileSystem φ] in
theorem lookup_bindFid (fids : List (FidNumber × Fid)) (fid : FidNumber) (entry : Fid) :
    (bindFid fids fid entry).lookup fid = some entry := by
  induction fids with
  | nil => simp [bindFid]
  | cons first rest ih =>
    obtain ⟨key, old⟩ := first
    unfold bindFid
    by_cases here : key = fid
    · rw [if_pos here]
      simp
    · rw [if_neg here]
      have apart : (fid == key) = false := beq_eq_false_iff_ne.mpr (Ne.symm here)
      simp only [List.lookup_cons, apart, ih]

omit [FileSystem φ] in
theorem lookup_bindFid_apart {fid other : FidNumber} (apart : other ≠ fid) (fids : List (FidNumber × Fid)) (entry : Fid) :
    (bindFid fids fid entry).lookup other = fids.lookup other := by
  induction fids with
  | nil => simp [bindFid, List.lookup_cons, beq_eq_false_iff_ne.mpr apart]
  | cons first rest ih =>
    obtain ⟨key, old⟩ := first
    unfold bindFid
    by_cases here : key = fid
    · subst here
      rw [if_pos rfl, List.lookup_cons, List.lookup_cons, beq_eq_false_iff_ne.mpr apart]
    · rw [if_neg here, List.lookup_cons, List.lookup_cons, ih]

theorem walk_binds {server next : Server φ} {root other : FidNumber} {isOpen : Bool} {names : List String} {space : UInt32}
    {answer : List Field} (named : Path.Named names) (attached : server.fids.lookup root = some ⟨[], isOpen⟩)
    (done : perform space (.walk root other names) server = .ok answer next) (complete : answer.length = names.length + 1) :
    next.fids.lookup other = some ⟨names, false⟩ := by
  change Server.walk root other names server = _ at done
  rw [Server.walk, bind_of_ok (lookup_run attached), bind_of_ok (get_run server)] at done
  obtain ⟨⟨last, qids⟩, mid, walked, rest⟩ := bind_ok.mp (passed done)
  have binding := passed rest
  by_cases whole : qids.length = names.length
  · rw [if_pos whole] at binding
    obtain ⟨_, final, bound, same⟩ := bind_ok.mp binding
    have root : Path.Named [] := fun _ member => by cases member
    have walks := walkFrom_complete named root server trivial
    have reached := walks.2 _ (congrArg value? walked) whole
    cases bound
    cases same
    rw [lookup_bindFid]
    exact congrArg (fun path => some (Fid.mk path false)) reached
  · rw [if_neg whole] at binding
    cases binding
    simp at complete
    exact absurd complete whole

section Moved

variable {server : Server HostShare} {fid other : FidNumber} {isOpen : Bool} {path : Path}

theorem sameAt_directory {share : HostShare} {entries : List (FileName × Node)} {readOnly : Bool} (some : path ≠ [])
    (directory : share.host.stat (share.hostPath path) false = .ok (.directory entries readOnly))
    (short : Host.refusal? (share.hostPath path ++ [""]) = none) : SameAt share (path ++ [""]) path := by
  obtain ⟨errno, plain, slash⟩ := HostShare.filePath_slash some directory short
  refine ⟨HostShare.getattr_slash some directory short, ?_, ?_, ?_, ?_, HostShare.fsync_slash some directory short⟩
  · intro size
    exact (bind_of_error slash).trans (bind_of_error plain).symm
  · intro attr next shown file
    obtain ⟨node, found, kind⟩ := HostShare.getattr_ok shown
    rw [directory] at found
    cases found
    rw [kind] at file
    cases file
  · intro offset n
    have same : HostShare.read (path ++ [""]) offset n share = HostShare.read path offset n share :=
      (bind_of_error slash).trans (bind_of_error plain).symm
    change (Filled.ofBytes n <$> HostShare.read _ offset n) share = (Filled.ofBytes n <$> HostShare.read _ offset n) share
    rw [map_eq_pure_bind, map_eq_pure_bind, bind_congr_at same]
  · intro offset bytes
    exact (bind_of_error slash).trans (bind_of_error plain).symm

theorem qidKind_injective {first second : FileKind} (same : first.qidKind = second.qidKind) : first = second := by
  cases first <;> cases second <;> first | rfl | cases same

theorem getattr_shows {attr : FileAttr} {share : HostShare} (bound : server.fids.lookup fid = some ⟨path, isOpen⟩)
    (shown : HostShare.getattr path server.fs = .ok attr share) :
    ∃ fields, answered (perform 0 (.getattr fid) server) = (.ok (.u64 getattrBasic :: .qid attr.qid :: fields), share) := by
  have asked : onFs (FileSystem.getattr path) server = .ok attr { server with fs := share } := onFs_ok shown
  change ∃ fields, answered (Server.getattr fid server) = (.ok (_ :: _ :: fields), share)
  rw [Server.getattr, bind_of_ok (lookup_run bound), bind_of_ok asked]
  exact ⟨_, rfl⟩

theorem getattr_fails {errno : Errno} {share : HostShare} (bound : server.fids.lookup fid = some ⟨path, isOpen⟩)
    (failed : HostShare.getattr path server.fs = .error errno share) :
    answered (perform 0 (.getattr fid) server) = (.error (.errno errno), share) := by
  have asked : onFs (FileSystem.getattr path) server = .error (.errno errno) { server with fs := share } := onFs_error failed
  change answered (Server.getattr fid server) = _
  rw [Server.getattr, bind_of_ok (lookup_run bound), bind_of_error asked]
  rfl

theorem alike_slash {attr : FileAttr} {after : HostShare} (named : path ≠ [])
    (bound : server.fids.lookup fid = some ⟨path ++ [""], isOpen⟩)
    (fresh : server.fids.lookup other = some ⟨path, isOpen⟩)
    (shown : HostShare.getattr path server.fs = .ok attr after) :
    server.Alike fid other ↔
      attr.kind = .directory ∧ Host.refusal? (server.fs.hostPath path ++ [""]) = none := by
  constructor
  · intro alike
    have same := alike .getattr 0
    obtain ⟨fields, freshly⟩ := getattr_shows fresh shown
    change answered (perform 0 (.getattr fid) server) = answered (perform 0 (.getattr other) server) at same
    rw [freshly] at same
    cases slash : HostShare.getattr (path ++ [""]) server.fs with
    | error errno share =>
      rw [getattr_fails bound slash] at same
      cases same
    | ok slashed share =>
      obtain ⟨others, slashly⟩ := getattr_shows bound slash
      rw [slashly] at same
      have qids : slashed.qid = attr.qid := by
        simpa using (List.cons.inj (List.cons.inj (Except.ok.inj (congrArg Prod.fst same))).2).1
      have kinds : slashed.kind = attr.kind := qidKind_injective (congrArg Qid.kind qids)
      refine ⟨kinds.symm.trans (HostShare.getattr_slash_directory named slash), ?_⟩
      obtain ⟨node, found, _⟩ := HostShare.getattr_ok slash
      rw [HostShare.hostPath_slash _ named] at found
      obtain ⟨_, allowed, _⟩ := Host.stat_ok found
      exact allowed
  · rintro ⟨directory, short⟩
    obtain ⟨node, found, kind⟩ := HostShare.getattr_ok shown
    cases node with
    | directory entries readOnly => exact alike_of_sameAt bound fresh (sameAt_directory named found short)
    | file contents readOnly =>
      rw [kind] at directory
      cases directory
    | link target =>
      rw [kind] at directory
      cases directory

theorem onFs_bars {α : Type} {operation : HostShare.M α} (bars : HostShare.Bars operation server.fs) :
    ∃ errno, HostShare.Barred errno ∧ onFs operation server = .error (.errno errno) server := by
  obtain ⟨errno, kind, failed⟩ := bars
  exact ⟨errno, kind, onFs_error failed⟩

end Moved

end Server

-- The request goes to the object, which need not be open for every request.
def FileRequest.reaches (request : FileRequest) (isOpen : Bool) : Bool :=
  match request with
  | getattr | lopen _ | fsync => true
  | read _ _ | write _ _ => isOpen
  | setattr valid _ => valid &&& setattrSize != 0

namespace Server

theorem barred_slash {server : Server HostShare} {fid : FidNumber} {isOpen : Bool} {path : Path} {contents : Contents}
    {readOnly : Bool} (named : path ≠ []) (bound : server.fids.lookup fid = some ⟨path ++ [""], isOpen⟩)
    (file : server.fs.host.stat (server.fs.hostPath path) false = .ok (.file contents readOnly))
    (short : Host.refusal? (server.fs.hostPath path ++ [""]) = none) (request : FileRequest)
    (reaches : request.reaches isOpen = true) (space : UInt32) :
    ∃ errno, HostShare.Barred errno ∧
      answered (perform space (request.through fid) server) = (.error (.errno errno), server.fs) := by
  cases request with
  | getattr =>
    obtain ⟨errno, kind, failed⟩ := onFs_bars (HostShare.getattr_bars named file short)
    refine ⟨errno, kind, ?_⟩
    change answered (Server.getattr fid server) = _
    rw [Server.getattr, bind_of_ok (lookup_run bound)]
    exact congrArg answered (bind_of_error failed)
  | setattr valid size =>
    obtain ⟨errno, kind, failed⟩ := onFs_bars (HostShare.truncate_bars named file short size)
    refine ⟨errno, kind, ?_⟩
    change answered (Server.setattr fid valid size server) = _
    have sized : (valid &&& setattrSize != 0) = true := reaches
    rw [Server.setattr, bind_of_ok (lookup_run bound)]
    dsimp only
    rw [if_pos sized]
    exact congrArg answered (bind_of_error failed)
  | lopen flags =>
    obtain ⟨errno, kind, failed⟩ := onFs_bars (HostShare.getattr_bars named file short)
    refine ⟨errno, kind, ?_⟩
    change answered (Server.lopen fid flags server) = _
    rw [Server.lopen, bind_of_ok (lookup_run bound)]
    exact congrArg answered (bind_of_error failed)
  | read offset count =>
    have opened : isOpen = true := reaches
    obtain ⟨errno, kind, failed⟩ := onFs_bars (HostShare.bars_map (Filled.ofBytes _) (HostShare.read_bars named file short offset _))
    refine ⟨errno, kind, ?_⟩
    change answered (Server.read fid offset count space server) = _
    rw [Server.read, bind_of_ok (get_run server), bind_of_ok ((openPath_run bound).trans (if_pos opened))]
    exact congrArg answered (bind_of_error failed)
  | write offset data =>
    have opened : isOpen = true := reaches
    obtain ⟨errno, kind, failed⟩ := onFs_bars (HostShare.write_bars named file short offset _)
    refine ⟨errno, kind, ?_⟩
    change answered (Server.write fid offset data server) = _
    rw [Server.write, bind_of_ok ((openPath_run bound).trans (if_pos opened))]
    exact congrArg answered (bind_of_error failed)
  | fsync =>
    obtain ⟨errno, kind, failed⟩ := onFs_bars (HostShare.fsync_bars named file short)
    refine ⟨errno, kind, ?_⟩
    change answered (Server.fsync fid server) = _
    rw [Server.fsync, bind_of_ok (lookup_run bound)]
    exact congrArg answered (bind_of_error failed)

-- What becomes of a fid at or below a place whose object has been moved to a path. Its own path from then on is given
-- by the first field; the others say how it serves at any later time, next to a fid that a walk has bound.
structure Follows (next : Server HostShare) (fid : FidNumber) (isOpen : Bool) (new : Path) (rest : List String) : Prop where
  bound : next.fids.lookup fid = some ⟨new ++ (if rest = [] then [""] else rest), isOpen⟩
  fresh : ∀ {server after : Server HostShare} {root other : FidNumber} {isOpen : Bool} {space : UInt32} {answer : List Field},
    server.fids.lookup root = some ⟨[], isOpen⟩ →
      perform space (.walk root other (new ++ rest)) server = .ok answer after →
        answer.length = (new ++ rest).length + 1 → after.fids.lookup other = some ⟨new ++ rest, false⟩
  below : rest ≠ [] → ∀ {later : Server HostShare} {other : FidNumber} {isOpen : Bool},
    later.fids.lookup fid = some ⟨new ++ rest, isOpen⟩ → later.fids.lookup other = some ⟨new ++ rest, isOpen⟩ →
      later.Alike fid other
  itself : ∀ {later : Server HostShare} {other : FidNumber} {isOpen : Bool} {attr : FileAttr} {after : HostShare},
    later.fids.lookup fid = some ⟨new ++ [""], isOpen⟩ → later.fids.lookup other = some ⟨new, isOpen⟩ →
      HostShare.getattr new later.fs = .ok attr after →
        (later.Alike fid other ↔ attr.kind = .directory ∧ Host.refusal? (later.fs.hostPath new ++ [""]) = none)
  file : ∀ {later : Server HostShare} {isOpen : Bool} {contents : Contents} {readOnly : Bool},
    later.fids.lookup fid = some ⟨new ++ [""], isOpen⟩ →
      later.fs.host.stat (later.fs.hostPath new) false = .ok (.file contents readOnly) →
        Host.refusal? (later.fs.hostPath new ++ [""]) = none →
          ∀ (request : FileRequest) space, request.reaches isOpen = true →
            ∃ errno, HostShare.Barred errno ∧
              answered (perform space (request.through fid) later) = (.error (.errno errno), later.fs)

theorem rename_follows {server next : Server HostShare} (session : Session server) {request : Request} {old new : Path}
    {space : UInt32} {answer : List Field} (valid : request.isValid = true) (moves : Moves server request old new)
    (done : perform space request server = .ok answer next) {fid : FidNumber} {entry : Fid} {rest : List String}
    (bound : server.fids.lookup fid = some entry) (below : entry.path.namesAfter? old = some rest) :
    Follows next fid entry.isOpen new rest := by
  obtain ⟨named, some⟩ := moves_named session.orderly valid moves
  have after := Path.namesAfter_named (session.orderly _ (mem_of_lookup bound)) below
  refine ⟨?_, ?_, ?_, alike_slash some, ?_⟩
  · rw [moves_fids moves done, lookup_map, bound, Option.map_some, repath_below below, Path.joinNames_named named some]
  · intro server final root other isOpen space answer attached walked complete
    exact walk_binds (named.append after) attached walked complete
  · intro _ later other isOpen bound fresh
    exact alike_of_sameAt bound fresh (sameAt_refl _ _)
  · intro later isOpen contents readOnly bound file short request space reaches
    exact barred_slash some bound file short request reaches space

def oneFile : HostShare where
  host := ⟨.directory [(.text "f", .file (.ofBytes ⟨#[0x61, 0x62, 0x63]⟩) false)] false⟩
  root := []

def attached : Server HostShare :=
  left (perform 8192 (.attach 0) ⟨oneFile, .empty, 8192, []⟩)

def walked : Server HostShare :=
  left (perform 8192 (.walk 0 1 ["f"]) attached)

def renamed : Server HostShare :=
  left (perform 8192 (.rename 1 0 "g") walked)

def rewalked : Server HostShare :=
  left (perform 8192 (.walk 0 2 ["g"]) renamed)

theorem walked_session : Session walked :=
  ((Session.started rfl).performed 8192 rfl).performed 8192 (by decide)

theorem rename_follows_file :
    Session walked ∧ perform 8192 (.rename 1 0 "g") walked = .ok [] renamed ∧ Follows renamed 1 false ["g"] [] := by
  have done : perform 8192 (.rename 1 0 "g") walked = .ok [] renamed := value_ok (by cbv)
  have bound : walked.fids.lookup 1 = some ⟨["f"], false⟩ := by cbv
  have root : walked.fids.lookup 0 = some ⟨[], false⟩ := by cbv
  have moves : Moves walked (.rename 1 0 "g") ["f"] ["g"] := .rename bound root
  exact ⟨walked_session, done, rename_follows walked_session (by cbv) moves done bound (by cbv)⟩

theorem renamed_file_lost :
    Session walked ∧ perform 8192 (.rename 1 0 "g") walked = .ok [] renamed ∧
      rewalked.fids.lookup 1 = some ⟨["g", ""], false⟩ ∧ rewalked.fids.lookup 2 = some ⟨["g"], false⟩ ∧
      (answered (perform 8192 (.getattr 1) rewalked)).1 = .error (.errno .notDirectory) ∧ ¬ rewalked.Alike 1 2 := by
  have lost : (answered (perform 8192 (.getattr 1) rewalked)).1 = .error (.errno .notDirectory) := by cbv
  have found : (answered (perform 8192 (.getattr 2) rewalked)).1.isOk = true := by cbv
  refine ⟨walked_session, value_ok (by cbv), by cbv, by cbv, lost, fun alike => ?_⟩
  have same := alike .getattr 8192
  change answered (perform 8192 (.getattr 1) rewalked) = answered (perform 8192 (.getattr 2) rewalked) at same
  rw [← same, lost] at found
  cases found

end Server

end RvBoard.NineP
