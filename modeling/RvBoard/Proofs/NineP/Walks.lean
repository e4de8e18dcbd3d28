import RvBoard.Proofs.NineP.Failures
import RvBoard.Proofs.NineP.Renaming

/-!
# Walks

What a walk answers and where it ends depends on nothing but the attributes of the places on its way. So a walk over
some names and then one from there over more is the walk over all of them.
-/

set_option autoImplicit false

namespace RvBoard.NineP.Server

variable {φ : Type}

def followed (path : Path) (name : String) : Path :=
  if name = "." then path else if name = ".." then path.parent else path.join name

def Walkable (name : String) : Prop :=
  name = "." ∨ name = ".." ∨ isChildName name = true

instance (name : String) : Decidable (Walkable name) :=
  inferInstanceAs (Decidable (name = "." ∨ name = ".." ∨ isChildName name = true))

theorem stepPath_walkable {name : String} (walkable : Walkable name) (path : Path) (server : Server φ) :
    stepPath path name server = .ok (followed path name) server := by
  unfold stepPath followed
  by_cases dot : name = "."
  · rw [if_pos dot, if_pos dot]
    rfl
  by_cases dots : name = ".."
  · rw [if_neg dot, if_pos dots, if_neg dot, if_pos dots]
    rfl
  have child : isChildName name = true := (walkable.resolve_left dot).resolve_left dots
  rw [if_neg dot, if_neg dots, if_pos child, if_neg dot, if_neg dots]
  rfl

theorem stepPath_barred {name : String} (barred : ¬ Walkable name) (path : Path) (server : Server φ) :
    stepPath path name server = .error (.errno .invalid) server := by
  unfold Walkable at barred
  rw [not_or, not_or] at barred
  obtain ⟨dot, dots, child⟩ := barred
  unfold stepPath
  rw [if_neg dot, if_neg dots, if_neg child]
  rfl

-- A walk among fixed attributes: the place where it ends, the qids of the places it comes to, and the paths whose
-- attributes it asks for.
structure Route where
  place : Path
  qids : List Qid
  asked : List Path

section Routes

variable (attributes : Path → Except Errno FileAttr)

-- One name of a walk, with the paths asked for.
def advance (path : Path) (name : String) : Option (Path × Qid) × List Path :=
  match attributes path with
  | .error _ => (none, [path])
  | .ok here =>
    if here.kind = .directory ∧ Walkable name then
      let next := followed path name
      ((attributes next).toOption.map fun attr => (next, attr.qid), [path, next])
    else (none, [path])

def route (path : Path) : List String → Route
  | [] => ⟨path, [], []⟩
  | name :: rest =>
    match advance attributes path name with
    | (none, asked) => ⟨path, [], asked⟩
    | (some (next, qid), asked) =>
      let onward := route next rest
      ⟨onward.place, qid :: onward.qids, asked ++ onward.asked⟩

section Steps

variable {attributes} {path next : Path} {name : String} {qid : Qid} {asked : List Path}

theorem route_blocked (rest : List String) (step : advance attributes path name = (none, asked)) :
    route attributes path (name :: rest) = ⟨path, [], asked⟩ := by
  rw [route, step]

theorem route_onward (rest : List String) (step : advance attributes path name = (some (next, qid), asked)) :
    route attributes path (name :: rest) = ⟨(route attributes next rest).place, qid :: (route attributes next rest).qids,
      asked ++ (route attributes next rest).asked⟩ := by
  rw [route, step]

theorem advance_followed (step : advance attributes path name = (some (next, qid), asked)) : next = followed path name := by
  unfold advance at step
  split at step
  · cases step
  split at step
  · obtain ⟨attr, _, same⟩ := Option.map_eq_some_iff.mp (Prod.mk.inj step).1
    exact (Prod.mk.inj same).1.symm
  · cases step

end Steps

theorem route_append (path : Path) (first second : List String) :
    let start := route attributes path first
    let onward := route attributes start.place second
    (start.qids.length = first.length ∧
      route attributes path (first ++ second) = ⟨onward.place, start.qids ++ onward.qids, start.asked ++ onward.asked⟩) ∨
    (start.qids.length < first.length ∧ route attributes path (first ++ second) = start) := by
  intro start onward
  induction first generalizing path with
  | nil => exact .inl ⟨rfl, rfl⟩
  | cons name rest ih =>
    rw [List.cons_append]
    rcases step : advance attributes path name with ⟨_ | ⟨next, qid⟩, asked⟩
    · right
      simp only [start, route_blocked _ step]
      exact ⟨Nat.succ_pos _, trivial⟩
    · simp only [start, onward, route_onward _ step, List.length_cons] at ih ⊢
      rcases ih next with ⟨complete, same⟩ | ⟨short, same⟩
      · left
        rw [same, complete]
        simp
      · right
        rw [same]
        exact ⟨Nat.succ_lt_succ short, rfl⟩

theorem route_place {path : Path} {names : List String}
    (complete : (route attributes path names).qids.length = names.length) :
    (route attributes path names).place = names.foldl followed path := by
  induction names generalizing path with
  | nil => rfl
  | cons name rest ih =>
    rcases step : advance attributes path name with ⟨_ | ⟨next, qid⟩, asked⟩
    · rw [route_blocked _ step] at complete
      cases complete
    · rw [route_onward _ step] at complete ⊢
      have here := advance_followed step
      subst here
      exact ih (Nat.succ.inj complete)

def Stays (path : Path) (name : String) : Prop :=
  name = "." ∨ name = ".." ∧ path = []

theorem route_stays {path : Path} {names : List String} {here : FileAttr} (shown : attributes path = .ok here)
    (directory : here.kind = .directory) (stays : ∀ name ∈ names, Stays path name) :
    (route attributes path names).place = path ∧
      (route attributes path names).qids = List.replicate names.length here.qid := by
  induction names with
  | nil => exact ⟨rfl, rfl⟩
  | cons name rest ih =>
    have step : advance attributes path name = (some (path, here.qid), [path, path]) := by
      have same : Walkable name ∧ followed path name = path := by
        rcases stays name List.mem_cons_self with rfl | ⟨rfl, rfl⟩
        · exact ⟨.inl rfl, rfl⟩
        · exact ⟨.inr (.inl rfl), rfl⟩
      unfold advance
      rw [shown]
      dsimp only
      rw [if_pos ⟨directory, same.1⟩, same.2, shown]
      rfl
    obtain ⟨place, qids⟩ := ih fun other member => stays other (List.mem_cons_of_mem _ member)
    rw [route_onward _ step]
    exact ⟨place, congrArg (here.qid :: ·) qids⟩

end Routes

theorem tried_step {step : M φ (Path × Qid)} {server next : Server φ} {result : Except Fault (Path × Qid)}
    (run : step server = resultAt result next) :
    (tryCatch (some <$> step) fun _ => return none) server = .ok result.toOption next := by
  change EStateM.tryCatch (EStateM.map some step) _ server = _
  unfold EStateM.tryCatch EStateM.map
  rw [run]
  cases result <;> rfl

variable [FileSystem φ]

-- Asked for the attributes of some paths in turn, the file system answers as the attributes are given.
def Told (attributes : Path → Except Errno FileAttr) : List Path → φ → Prop
  | [], _ => True
  | path :: rest, fs =>
    given (FileSystem.getattr path fs) = attributes path ∧ Told attributes rest (left (FileSystem.getattr path fs))

section Walking

variable {attributes : Path → Except Errno FileAttr}

theorem onFs_told {path : Path} (server : Server φ) (told : given (FileSystem.getattr path server.fs) = attributes path) :
    onFs (FileSystem.getattr path) server =
      resultAt ((attributes path).mapError .errno) { server with fs := left (FileSystem.getattr path server.fs) } := by
  rw [← told]
  unfold onFs
  cases FileSystem.getattr path server.fs <;> rfl

theorem walkStep_here {path : Path} {server next : Server φ} {here : FileAttr} (name : String)
    (asked : onFs (FileSystem.getattr path) server = .ok here next) :
    walkStep path name server =
      if here.kind = .directory ∧ Walkable name then
        (do return (followed path name, (← onFs (FileSystem.getattr (followed path name))).qid)) next
      else if here.kind = .directory then .error (.errno .invalid) next
      else .error (.errno .notDirectory) next := by
  unfold walkStep
  rw [bind_of_ok asked]
  dsimp only
  by_cases directory : here.kind = .directory
  · rw [if_neg (by simp [directory])]
    by_cases walkable : Walkable name
    · rw [bind_of_ok (stepPath_walkable walkable path _), if_pos ⟨directory, walkable⟩]
    · rw [bind_of_error (stepPath_barred walkable path _), if_neg fun goes => walkable goes.2, if_pos directory]
  · rw [if_pos (by simp [directory]), if_neg fun goes => directory goes.1, if_neg directory]
    rfl

theorem walkStep_told (path : Path) (name : String) {more : List Path} (server : Server φ)
    (told : Told attributes ((advance attributes path name).2 ++ more) server.fs) :
    ∃ fs, (tryCatch (some <$> walkStep path name) fun _ => return none) server =
        .ok (advance attributes path name).1 { server with fs := fs } ∧ Told attributes more fs := by
  unfold advance at told ⊢
  cases shown : attributes path with
  | error errno =>
    rw [shown] at told
    obtain ⟨run, told⟩ := told
    have asked := onFs_told server run
    rw [shown] at asked
    have fails : walkStep path name server = resultAt (.error (.errno errno)) _ := bind_of_error asked
    exact ⟨_, tried_step fails, told⟩
  | ok here =>
    rw [shown] at told
    dsimp only at told ⊢
    by_cases goes : here.kind = .directory ∧ Walkable name
    · rw [if_pos goes] at told ⊢
      obtain ⟨run, next, told⟩ := told
      have asked := onFs_told server run
      have also := onFs_told { server with fs := left (FileSystem.getattr path server.fs) } next
      rw [shown] at asked
      have ends := walkStep_here name asked
      rw [if_pos goes] at ends
      refine ⟨_, ?_, told⟩
      cases there : attributes (followed path name) with
      | error errno =>
        rw [there] at also
        have fails : walkStep path name server = resultAt (.error (.errno errno)) _ := ends.trans (bind_of_error also)
        exact tried_step fails
      | ok attr =>
        rw [there] at also
        have reached : walkStep path name server = resultAt (.ok (followed path name, attr.qid)) _ :=
          ends.trans (bind_of_ok also)
        exact tried_step reached
    · rw [if_neg goes] at told ⊢
      obtain ⟨run, told⟩ := told
      have asked := onFs_told server run
      rw [shown] at asked
      have ends := walkStep_here name asked
      rw [if_neg goes] at ends
      refine ⟨_, ?_, told⟩
      by_cases directory : here.kind = .directory
      · have fails : walkStep path name server = resultAt (.error (.errno .invalid)) _ := ends.trans (if_pos directory)
        exact tried_step fails
      · have fails : walkStep path name server = resultAt (.error (.errno .notDirectory)) _ := ends.trans (if_neg directory)
        exact tried_step fails

theorem walkFrom_told (path : Path) (names : List String) {more : List Path} (server : Server φ)
    (told : Told attributes ((route attributes path names).asked ++ more) server.fs) :
    ∃ fs, walkFrom path names server =
        .ok ((route attributes path names).place, (route attributes path names).qids) { server with fs := fs } ∧
      Told attributes more fs := by
  induction names generalizing path server with
  | nil => exact ⟨server.fs, rfl, told⟩
  | cons name rest ih =>
    rcases step : advance attributes path name with ⟨_ | ⟨next, qid⟩, asked⟩
    · rw [route_blocked _ step] at told ⊢
      obtain ⟨fs, tried, told⟩ := walkStep_told path name server (by rw [step]; exact told)
      rw [step] at tried
      exact ⟨fs, bind_of_ok tried, told⟩
    · rw [route_onward _ step] at told ⊢
      rw [List.append_assoc] at told
      obtain ⟨mid, tried, told⟩ := walkStep_told path name server (by rw [step]; exact told)
      rw [step] at tried
      obtain ⟨fs, onward, told⟩ := ih next { server with fs := mid } told
      exact ⟨fs, (bind_of_ok tried).trans (bind_of_ok onward), told⟩

end Walking

structure Returned (answer : Message) (qids : List Qid) : Prop where
  served : answer.type ≠ errorType
  fields : answer.fields = .u16 (UInt16.ofNat qids.length) :: qids.map .qid

section Answers

variable {attributes : Path → Except Errno FileAttr} {server : Server φ} {fid newFid : FidNumber} {path : Path}
  {isOpen : Bool} {names : List String} (bound : server.fids.lookup fid = some ⟨path, isOpen⟩)
  (free : newFid = fid ∨ server.fids.lookup newFid = none) {more : List Path}
  (told : Told attributes ((route attributes path names).asked ++ more) server.fs)

include bound free told

theorem walk_told :
    ∃ fs, Told attributes more fs ∧
      walk fid newFid names server =
        if (route attributes path names).qids.isEmpty && !names.isEmpty then .error (.errno .noEntry) { server with fs := fs }
        else .ok
          (.u16 (UInt16.ofNat (route attributes path names).qids.length) :: (route attributes path names).qids.map .qid)
          { server with
            fs := fs
            fids := if (route attributes path names).qids.length = names.length then
                bindFid server.fids newFid ⟨(route attributes path names).place, false⟩
              else server.fids } := by
  obtain ⟨fs, walked, told⟩ := walkFrom_told path names server told
  have usable : ¬ (newFid != fid && (server.fids.lookup newFid).isSome) = true := by
    rcases free with rfl | free
    · simp
    · simp [free]
  refine ⟨fs, told, ?_⟩
  rw [walk, bind_of_ok (lookup_run bound), bind_of_ok (get_run server)]
  dsimp only
  rw [if_neg usable, bind_of_ok walked]
  dsimp only
  by_cases none : ((route attributes path names).qids.isEmpty && !names.isEmpty) = true
  · rw [if_pos none, if_pos none]
    rfl
  · rw [if_neg none, if_neg none]
    by_cases complete : (route attributes path names).qids.length = names.length
    · rw [if_pos complete, if_pos complete]
      rfl
    · rw [if_neg complete, if_neg complete]
      rfl

variable {message : List UInt8} (asks : Asks message (.walk fid newFid names)) (space : UInt32)

include asks

theorem complete_returned (complete : (route attributes path names).qids.length = names.length) :
    Returned (server.handle message space).1 (route attributes path names).qids ∧
      (server.handle message space).2.fids = bindFid server.fids newFid ⟨(route attributes path names).place, false⟩ ∧
      Told attributes more (server.handle message space).2.fs := by
  obtain ⟨fs, told, done⟩ := walk_told bound free told
  have some : ¬ ((route attributes path names).qids.isEmpty && !names.isEmpty) = true := by
    cases names with
    | nil => simp
    | cons name rest => simp [List.ne_nil_of_length_eq_add_one complete]
  rw [if_neg some, if_pos complete] at done
  obtain ⟨served, fields, left⟩ := handle_done asks space done
  rw [left]
  exact ⟨⟨served, fields⟩, rfl, told⟩

theorem returned_route (qids : List Qid) (returned : Returned (server.handle message space).1 qids) :
    qids = (route attributes path names).qids := by
  obtain ⟨fs, told, done⟩ := walk_told bound free told
  by_cases none : ((route attributes path names).qids.isEmpty && !names.isEmpty) = true
  · rw [if_pos none] at done
    rcases handle_asked server asks space with ⟨fields, next, other, _, _⟩ | ⟨errno, next, _, failed, _⟩
    · cases done.symm.trans other
    · exact absurd failed returned.served
  · rw [if_neg none] at done
    obtain ⟨_, fields, _⟩ := handle_done asks space done
    have same := (List.cons.inj (returned.fields.symm.trans fields)).2
    exact List.map_injective_iff.mpr (fun _ _ => Field.qid.inj) same

end Answers

theorem walk_in_parts {attributes : Path → Except Errno FileAttr} {server : Server φ} {origin halfway goal : FidNumber}
    {path : Path} {isOpen : Bool} {first second : List String}
    (bound : server.fids.lookup origin = some ⟨path, isOpen⟩) (unused : server.fids.lookup halfway = none)
    (unbound : server.fids.lookup goal = none)
    (told : Told attributes (route attributes path (first ++ second)).asked server.fs) {out onward : List UInt8}
    (asksOut : Asks out (.walk origin halfway first)) (asksOnward : Asks onward (.walk halfway goal second))
    (spaceOut spaceOnward : UInt32) :
    let half := server.handle out spaceOut
    let rest := half.2.handle onward spaceOnward
    (∀ here there, here.length = first.length → there.length = second.length →
      (Returned half.1 here ∧ Returned rest.1 there ↔ (route attributes path (first ++ second)).qids = here ++ there)) ∧
    ((route attributes path (first ++ second)).qids.length = (first ++ second).length →
      half.2.fids.lookup halfway = some ⟨first.foldl followed path, false⟩ ∧
      rest.2.fids.lookup goal = some ⟨(first ++ second).foldl followed path, false⟩) := by
  intro half rest
  rcases route_append attributes path first second with ⟨complete, same⟩ | ⟨short, same⟩
  · rw [same] at told ⊢
    have outward := returned_route bound (.inr unused) told asksOut spaceOut
    obtain ⟨returned, fids, toldOnward⟩ := complete_returned bound (.inr unused) told asksOut spaceOut complete
    have placed : half.2.fids.lookup halfway = some ⟨(route attributes path first).place, false⟩ := by
      rw [fids, lookup_bindFid]
    have free : goal = halfway ∨ half.2.fids.lookup goal = none := by
      by_cases here : goal = halfway
      · exact .inl here
      · exact .inr (by rw [fids, lookup_bindFid_apart here, unbound])
    rw [← List.append_nil (Route.asked _)] at toldOnward
    have later := returned_route placed free toldOnward asksOnward spaceOnward
    have ends := complete_returned placed free toldOnward asksOnward spaceOnward
    refine ⟨fun here there few more => ⟨?_, fun qids => ?_⟩, fun all => ?_⟩
    · rintro ⟨first, second⟩
      rw [outward here first, later there second]
    · obtain ⟨rfl, rfl⟩ := List.append_inj qids (complete.trans few.symm)
      exact ⟨returned, (ends more).1⟩
    · simp only [List.length_append, complete] at all
      have last := Nat.add_left_cancel all
      refine ⟨by rw [placed, route_place _ complete], ?_⟩
      rw [(ends last).2.1, lookup_bindFid, route_place _ last, route_place _ complete, List.foldl_append]
  · rw [same] at told ⊢
    rw [← List.append_nil (Route.asked _)] at told
    have outward := returned_route bound (.inr unused) told asksOut spaceOut
    refine ⟨fun here there few more => ⟨?_, fun qids => ?_⟩, fun all => ?_⟩
    · rintro ⟨first, _⟩
      have shorter := congrArg List.length (outward here first)
      omega
    · have longer := congrArg List.length qids
      rw [List.length_append] at longer
      omega
    · rw [List.length_append] at all
      omega

/-- Where the attributes of the places stay what they are, a walk over some names and one from there over more return
together what the walk over all of them returns, whenever it is that both are made, and end at the same place. A walk over
dots that lead nowhere else, or over no names at all, ends where it starts. -/
theorem walks_compose {attributes : Path → Except Errno FileAttr} {server again : Server φ}
    {origin halfway goal : FidNumber} {path : Path} {isOpen stillOpen : Bool} {first second : List String}
    (bound : server.fids.lookup origin = some ⟨path, isOpen⟩) (free : server.fids.lookup goal = none)
    (still : again.fids.lookup origin = some ⟨path, stillOpen⟩) (unused : again.fids.lookup halfway = none)
    (unbound : again.fids.lookup goal = none)
    (told : Told attributes (route attributes path (first ++ second)).asked server.fs)
    (retold : Told attributes (route attributes path (first ++ second)).asked again.fs) {direct out onward : List UInt8}
    (asksDirect : Asks direct (.walk origin goal (first ++ second))) (asksOut : Asks out (.walk origin halfway first))
    (asksOnward : Asks onward (.walk halfway goal second)) (space spaceOut spaceOnward : UInt32) :
    let whole := server.handle direct space
    let half := again.handle out spaceOut
    let rest := half.2.handle onward spaceOnward
    (∀ here there, here.length = first.length → there.length = second.length →
      (Returned whole.1 (here ++ there) ↔ Returned half.1 here ∧ Returned rest.1 there)) ∧
    (∀ qids, qids.length = (first ++ second).length → Returned whole.1 qids →
      whole.2.fids.lookup goal = some ⟨(first ++ second).foldl followed path, false⟩ ∧
      half.2.fids.lookup halfway = some ⟨first.foldl followed path, false⟩ ∧
      rest.2.fids.lookup goal = some ⟨(first ++ second).foldl followed path, false⟩) ∧
    (∀ here, attributes path = .ok here → here.kind = .directory → (∀ name ∈ first ++ second, Stays path name) →
      Returned whole.1 (List.replicate (first ++ second).length here.qid) ∧
      whole.2.fids.lookup goal = some ⟨path, false⟩) ∧
    (first ++ second = [] → Returned whole.1 [] ∧ whole.2.fids.lookup goal = some ⟨path, false⟩) := by
  intro whole half rest
  rw [← List.append_nil (route attributes path (first ++ second)).asked] at told
  have complete := complete_returned bound (.inr free) told asksDirect space
  have returned := returned_route bound (.inr free) told asksDirect space
  have ends (all : (route attributes path (first ++ second)).qids.length = (first ++ second).length) :
      whole.2.fids.lookup goal = some ⟨(first ++ second).foldl followed path, false⟩ := by
    rw [(complete all).2.1, lookup_bindFid, route_place _ all]
  obtain ⟨parts, places⟩ := walk_in_parts still unused unbound retold asksOut asksOnward spaceOut spaceOnward
  refine ⟨?_, ?_, ?_, ?_⟩
  · intro here there few more
    rw [parts here there few more]
    constructor
    · exact fun answer => (returned _ answer).symm
    · intro qids
      rw [← qids]
      exact (complete (by rw [qids, List.length_append, List.length_append, few, more])).1
  · intro qids all answer
    rw [returned qids answer] at all
    exact ⟨ends all, places all⟩
  · intro here shown directory stays
    obtain ⟨place, qids⟩ := route_stays attributes shown directory stays
    have all : (route attributes path (first ++ second)).qids.length = (first ++ second).length := by
      rw [qids, List.length_replicate]
    have stayed := ends all
    rw [← route_place _ all, place] at stayed
    exact ⟨qids ▸ (complete all).1, stayed⟩
  · intro none
    rw [none] at complete ends
    exact ⟨(complete rfl).1, ends rfl⟩

def shelved : HostShare where
  host := ⟨.directory [(.text "d", .directory [(.text "f", .file (.ofBytes ⟨#[0x61, 0x62, 0x63]⟩) false)] false)] false⟩
  root := []

def visited : HostShare :=
  { shelved with inodes := [(["d", "f"], 3), (["d"], 2), ([], 1)], nextInode := 4 }

def atRoot (share : HostShare) : Server HostShare :=
  ⟨share, .empty, 8192, [(0, ⟨[], false⟩)]⟩

def shownBy (share : HostShare) (path : Path) : Except Errno FileAttr :=
  given (HostShare.getattr path share)

def walkToFile : List UInt8 :=
  [23, 0, 0, 0, 110, 2, 0, 0, 0, 0, 0, 2, 0, 0, 0, 2, 0, 1, 0, 0x64, 1, 0, 0x66]

def walkToDirectory : List UInt8 :=
  [20, 0, 0, 0, 110, 3, 0, 0, 0, 0, 0, 1, 0, 0, 0, 1, 0, 1, 0, 0x64]

def walkOnToFile : List UInt8 :=
  [20, 0, 0, 0, 110, 4, 0, 1, 0, 0, 0, 2, 0, 0, 0, 1, 0, 1, 0, 0x66]

theorem walks_compose_file :
    Asks walkToFile (.walk 0 2 ["d", "f"]) ∧ Asks walkToDirectory (.walk 0 1 ["d"]) ∧ Asks walkOnToFile (.walk 1 2 ["f"]) ∧
      Returned ((atRoot shelved).handle walkToFile 8192).1 [⟨0x80, 0, 2⟩, ⟨0, 0, 3⟩] ∧
      Returned ((atRoot visited).handle walkToDirectory 8192).1 [⟨0x80, 0, 2⟩] ∧
      Returned (((atRoot visited).handle walkToDirectory 8192).2.handle walkOnToFile 8192).1 [⟨0, 0, 3⟩] := by
  have direct : Asks walkToFile (.walk 0 2 ["d", "f"]) := ⟨110, 2, walkToFile.drop 7, by cbv, by cbv⟩
  have out : Asks walkToDirectory (.walk 0 1 ["d"]) := ⟨110, 3, walkToDirectory.drop 7, by cbv, by cbv⟩
  have onward : Asks walkOnToFile (.walk 1 2 ["f"]) := ⟨110, 4, walkOnToFile.drop 7, by cbv, by cbv⟩
  have asked : (route (shownBy visited) [] (["d"] ++ ["f"])).asked = [[], ["d"], ["d"], ["d", "f"]] := by cbv
  have told : Told (shownBy visited) (route (shownBy visited) [] (["d"] ++ ["f"])).asked shelved := by
    rw [asked]
    exact ⟨by cbv, by cbv, by cbv, by cbv, trivial⟩
  have retold : Told (shownBy visited) (route (shownBy visited) [] (["d"] ++ ["f"])).asked visited := by
    rw [asked]
    exact ⟨by cbv, by cbv, by cbv, by cbv, trivial⟩
  have bound (share : HostShare) : (atRoot share).fids.lookup 0 = some ⟨[], false⟩ := rfl
  obtain ⟨parts, _⟩ := walks_compose (bound shelved) rfl (bound visited) rfl rfl told retold direct out onward 8192 8192 8192
  have served : ((atRoot shelved).handle walkToFile 8192).1.type = 111 := by cbv
  have whole : Returned ((atRoot shelved).handle walkToFile 8192).1 ([⟨0x80, 0, 2⟩] ++ [⟨0, 0, 3⟩]) :=
    ⟨by rw [served]; decide, by cbv⟩
  exact ⟨direct, out, onward, whole, (parts [_] [_] rfl rfl).mp whole⟩

end RvBoard.NineP.Server
