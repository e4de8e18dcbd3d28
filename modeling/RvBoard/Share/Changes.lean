import RvBoard.Share.Node

/-!
# Changes of a tree

What has to be done to one tree of files to get another, as a list of steps: a directory is made
before what is in it, and removed after it.
-/

set_option autoImplicit false

namespace RvBoard

inductive Change where
  | makeDirectory (location : Location)
  | writeFile (location : Location) (bytes : ByteArray)
  | removeFile (location : Location)
  | removeDirectory (location : Location)

def Change.location : Change → Location
  | makeDirectory location => location
  | writeFile location _ => location
  | removeFile location => location
  | removeDirectory location => location

namespace Node

mutual

def removal (location : Location) : Node → List Change
  | .directory entries _ => removals location entries ++ [.removeDirectory location]
  | _ => [.removeFile location]

def removals (location : Location) : List (FileName × Node) → List Change
  | [] => []
  | (name, node) :: rest => removal (location ++ [name]) node ++ removals location rest

end

/-- What was in a directory, and is not any more, goes away. -/
def removed (location : Location) (old new : List (FileName × Node)) : List Change :=
  removals location (old.filter fun entry => (new.lookup entry.1).isNone)

mutual

/-- A node takes the place of another, or of nothing. -/
def changes (location : Location) (before : Option Node) : Node → List Change
  | .directory entries _ =>
    match before with
    | some (.directory old _) =>
      removed location old entries ++ entryChanges location old entries
    | some other =>
      removal location other ++ .makeDirectory location :: entryChanges location [] entries
    | none => .makeDirectory location :: entryChanges location [] entries
  | .file contents _ =>
    match before with
    | some (.file old _) =>
      if old.toBytes == contents.toBytes then [] else [.writeFile location contents.toBytes]
    | some other => removal location other ++ [.writeFile location contents.toBytes]
    | none => [.writeFile location contents.toBytes]
  | .link _ => []

def entryChanges (location : Location) (old : List (FileName × Node)) :
    List (FileName × Node) → List Change
  | [] => []
  | (name, node) :: rest =>
    changes (location ++ [name]) (old.lookup name) node ++ entryChanges location old rest

end

end Node

end RvBoard
