import RvBoard.Share.Host

/-!
# Resolution of paths

A path with a trailing slash leads where the path without it leads when links are followed, and
only if a directory is there.
-/

set_option autoImplicit false

namespace RvBoard

namespace Host

def directoryOnly (host : Host) (location : Location) : Except Errno Location :=
  match host.node? location with
  | some (.directory _ _) => .ok location
  | _ => .error .notDirectory

theorem node_child (host : Host) (location : Location) (name : FileName) :
    host.node? (location ++ [name]) = (host.node? location).bind (·.child? name) := by
  unfold node?
  generalize host.tree = tree
  induction location generalizing tree with
  | nil =>
    change (tree.child? name).bind (fun node => some node) = tree.child? name
    cases tree.child? name <;> rfl
  | cons first rest ih =>
    change (tree.child? first).bind (·.find? (rest ++ [name])) = ((tree.child? first).bind (·.find? rest)).bind _
    cases tree.child? first with
    | none => rfl
    | some child => exact ih child

theorem lookup_node {host : Host} {directory : Location} {name : String} {node : Node}
    (found : host.lookup directory name = .ok node) : host.node? (directory ++ [.text name]) = some node := by
  rw [node_child]
  unfold lookup at found
  split at found
  · rename_i entries readOnly here
    split at found
    · cases found
    split at found
    · rename_i entry present
      cases found
      rw [here]
      exact present
    · cases found
  · cases found

section Steps

variable {host : Host} {location : Location} {segment : String} {rest : List String} {follow : Bool} {links : Nat}

theorem walk_nil (host : Host) (location : Location) (follow : Bool) (links : Nat) :
    host.walk location [] follow links = .ok location := by
  rw [walk]

theorem walk_dots (dots : segment = "" ∨ segment = "." ∨ segment = "..") :
    host.walk location (segment :: rest) follow links =
      (host.directoryOnly location).bind fun location =>
        host.walk (if segment = ".." then location.dropLast else location) rest follow links := by
  rw [walk, if_pos dots]
  unfold directoryOnly
  cases host.node? location with
  | none => rfl
  | some node => cases node <;> rfl

variable (named : ¬ (segment = "" ∨ segment = "." ∨ segment = ".."))

include named

theorem walk_missing {errno : Errno} (missing : host.lookup location segment = .error errno) :
    host.walk location (segment :: rest) follow links = .error errno := by
  rw [walk, if_neg named, missing]

theorem walk_enters {node : Node} (found : host.lookup location segment = .ok node)
    (entered : ∀ target, node ≠ .link target) :
    host.walk location (segment :: rest) follow links = host.walk (location ++ [.text segment]) rest follow links := by
  rw [walk, if_neg named, found]
  cases node with
  | link target => exact absurd rfl (entered target)
  | _ => rfl

theorem walk_link {target : String} (found : host.lookup location segment = .ok (.link target)) :
    host.walk location (segment :: rest) follow links =
      if rest.isEmpty && !follow then .ok (location ++ [.text segment])
      else
        match links with
        | 0 => .error .loop
        | links + 1 =>
          host.walk (if (Path.ofText target).head? = some "" then [] else location) (Path.ofText target ++ rest) follow
            links := by
  cases links <;> simp only [walk, if_neg named, found]

end Steps

theorem walk_trailing (host : Host) (location : Location) (follow : Bool) (links : Nat) :
    host.walk location [""] follow links = host.directoryOnly location := by
  rw [walk_dots (.inl rfl)]
  cases host.directoryOnly location with
  | error errno => rfl
  | ok here => exact walk_nil host here follow links

-- Induction on the steps of the walk: the slash stays behind whatever a link puts in front of it.
theorem walk_slash (host : Host) (location : Location) (segments : List String) (follow : Bool) (links : Nat) :
    host.walk location (segments ++ [""]) follow links =
      (host.walk location segments true links).bind host.directoryOnly := by
  fun_induction walk host location segments true links with
  | case1 location links => exact walk_trailing host location follow links
  | case2 location links segment rest dots entries readOnly here next ih =>
    rw [List.cons_append, walk_dots dots]
    unfold directoryOnly
    rw [here]
    exact ih
  | case3 location links segment rest dots missing =>
    rw [List.cons_append, walk_dots dots]
    unfold directoryOnly
    split
    · exact absurd ‹_› (missing _ _)
    · rfl
  | case4 location links segment rest named errno missing => exact walk_missing named missing
  | case5 location links segment rest named target found last => simp at last
  | case6 location segment rest named target found goes =>
    rw [List.cons_append, walk_link named found]
    simp
    rfl
  | case7 location segment rest named target found goes links path start ih =>
    rw [List.cons_append, walk_link named found, ← ih]
    simp [path, start]
  | case8 location links segment rest named node entered found ih =>
    rw [List.cons_append, walk_enters named found (fun target same => entered target same)]
    exact ih

theorem walk_followed {host : Host} {location last : Location} {segments : List String} {links : Nat} {node : Node}
    (walked : host.walk location segments false links = .ok last) (here : host.node? last = some node)
    (entered : ∀ target, node ≠ .link target) : host.walk location segments true links = .ok last := by
  fun_induction walk host location segments false links with
  | case1 location links => rw [walk_nil, walked]
  | case2 location links segment rest dots entries readOnly directory next ih =>
    rw [walk_dots dots]
    unfold directoryOnly
    rw [directory]
    exact ih walked
  | case3 => cases walked
  | case4 => cases walked
  | case5 location links segment rest named target found last =>
    cases walked
    rw [lookup_node found] at here
    cases here
    exact absurd rfl (entered target)
  | case6 => cases walked
  | case7 location segment rest named target found goes links path start ih =>
    rw [walk_link named found]
    simpa [path, start] using ih walked
  | case8 location links segment rest named node entered found ih =>
    rw [walk_enters named found (fun target same => entered target same)]
    exact ih walked

theorem isPassable_slash (path : Path) : isPassable (path ++ [""]) = isPassable path := by
  unfold isPassable
  rw [List.all_append]
  simp

theorem stat_walked {host : Host} {path : Path} {follow : Bool} {location : Location} (allowed : refusal? path = none)
    (walked : host.walk [] path follow maxLinks = .ok location) :
    host.stat path follow = (host.node? location).elim (.error .noEntry) .ok := by
  unfold stat resolve
  rw [allowed]
  change (host.walk [] path follow maxLinks).bind _ = _
  rw [walked]
  cases here : host.node? location <;> simp only [Except.bind, here, Option.elim]

theorem stat_ok {host : Host} {path : Path} {follow : Bool} {node : Node} (found : host.stat path follow = .ok node) :
    ∃ location, refusal? path = none ∧ host.walk [] path follow maxLinks = .ok location ∧ host.node? location = some node := by
  cases allowed : refusal? path with
  | some errno =>
    unfold stat resolve at found
    rw [allowed] at found
    cases found
  | none =>
    cases walked : host.walk [] path follow maxLinks with
    | error errno =>
      unfold stat resolve at found
      rw [allowed, walked] at found
      cases found
    | ok location =>
      rw [stat_walked allowed walked] at found
      cases here : host.node? location with
      | none =>
        rw [here] at found
        cases found
      | some other =>
        rw [here] at found
        cases found
        exact ⟨location, rfl, rfl, here⟩

theorem directoryOnly_ok {host : Host} {start location : Location} (passed : host.directoryOnly start = .ok location) :
    start = location ∧ ∃ entries readOnly, host.node? location = some (.directory entries readOnly) := by
  unfold directoryOnly at passed
  split at passed
  · cases passed
    exact ⟨rfl, _, _, ‹_›⟩
  · cases passed

theorem stat_slash_directory {host : Host} {path : Path} {follow : Bool} {node : Node}
    (found : host.stat (path ++ [""]) follow = .ok node) : node.isDirectory = true := by
  obtain ⟨location, _, walked, here⟩ := stat_ok found
  rw [walk_slash] at walked
  cases start : host.walk [] path true maxLinks with
  | error errno =>
    rw [start] at walked
    cases walked
  | ok start =>
    rw [start] at walked
    obtain ⟨_, entries, readOnly, directory⟩ := directoryOnly_ok walked
    rw [here] at directory
    cases directory
    rfl

section Directory

variable {host : Host} {path : Path} {entries : List (FileName × Node)} {readOnly : Bool}
  (directory : host.stat path false = .ok (.directory entries readOnly))

include directory

theorem walk_directory :
    ∃ location, host.node? location = some (.directory entries readOnly) ∧
      ∀ follow, host.walk [] path follow maxLinks = .ok location ∧
        host.walk [] (path ++ [""]) follow maxLinks = .ok location := by
  obtain ⟨location, _, walked, here⟩ := stat_ok directory
  have followed := walk_followed walked here (fun _ same => by cases same)
  refine ⟨location, here, fun follow => ⟨?_, ?_⟩⟩
  · cases follow
    · exact walked
    · exact followed
  · rw [walk_slash, followed]
    unfold directoryOnly
    simp only [Except.bind, here]

theorem canonical_directory :
    ∃ location, host.canonical path = .ok location ∧ host.canonical (path ++ [""]) = .ok location := by
  obtain ⟨location, _, walked⟩ := walk_directory directory
  obtain ⟨_, allowed, _, _⟩ := stat_ok directory
  have passable : isPassable path = true := by
    cases passable : isPassable path with
    | true => rfl
    | false =>
      unfold refusal? at allowed
      rw [passable] at allowed
      cases allowed
  refine ⟨location, ?_, ?_⟩
  · unfold canonical
    rw [if_pos passable, (walked true).1]
  · unfold canonical
    rw [isPassable_slash, if_pos passable, (walked true).2]

theorem stat_slash (short : refusal? (path ++ [""]) = none) (follow : Bool) :
    host.stat (path ++ [""]) follow = .ok (.directory entries readOnly) := by
  obtain ⟨location, here, walked⟩ := walk_directory directory
  rw [stat_walked short (walked follow).2, here]
  rfl

theorem stat_directory (follow : Bool) : host.stat path follow = .ok (.directory entries readOnly) := by
  obtain ⟨location, here, walked⟩ := walk_directory directory
  obtain ⟨_, allowed, _, _⟩ := stat_ok directory
  rw [stat_walked allowed (walked follow).1, here]
  rfl

theorem isDirectory_slash (short : refusal? (path ++ [""]) = none) :
    host.isDirectory path = true ∧ host.isDirectory (path ++ [""]) = true := by
  constructor
  · unfold isDirectory
    rw [stat_directory directory]
    rfl
  · unfold isDirectory
    rw [stat_slash directory short]
    rfl

end Directory

theorem resolve_file_slash {host : Host} {path : Path} {contents : Contents} {readOnly : Bool}
    (file : host.stat path false = .ok (.file contents readOnly)) (short : refusal? (path ++ [""]) = none) (follow : Bool) :
    host.resolve (path ++ [""]) follow = .error .notDirectory := by
  obtain ⟨location, _, walked, here⟩ := stat_ok file
  have followed := walk_followed walked here (fun _ same => by cases same)
  unfold resolve
  rw [short]
  change host.walk [] (path ++ [""]) follow maxLinks = _
  rw [walk_slash, followed]
  unfold directoryOnly
  simp only [Except.bind, here]

end Host

end RvBoard
