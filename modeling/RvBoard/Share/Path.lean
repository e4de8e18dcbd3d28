/-!
# Paths

A path is the list of segments between its slashes. An empty last segment is a trailing slash,
which asks for a directory; an empty first segment makes the path absolute.
-/

set_option autoImplicit false

namespace RvBoard

abbrev Path := List String

namespace Path

def ofText (text : String) : Path :=
  if text.isEmpty then [] else text.splitOn "/"

def toText (path : Path) : String :=
  String.intercalate "/" path

def isName (segment : String) : Bool :=
  segment != "" && segment != "." && segment != ".."

/-- The names on the path; empty and dot segments between them do not count. -/
def names (path : Path) : List String :=
  path.filter fun segment => segment != "" && segment != "."

def isPlain (path : Path) : Bool :=
  (match path with
    | "" :: _ => false
    | "." :: _ => false
    | _ => true)
  && path.all (· != "..")

def trimmed (path : Path) : Path :=
  if path.getLast? = some "" then path.dropLast else path

def joinNames (path : Path) (names : List String) : Path :=
  match path, names with
  | [], names => names
  | path, [] => path.trimmed ++ [""]
  | path, names => path.trimmed ++ names

def join (path : Path) (name : String) : Path :=
  path.joinNames [name]

def parent (path : Path) : Path :=
  path.names.dropLast

def namesAfter? (path start : Path) : Option (List String) :=
  if start.names.isPrefixOf path.names then some (path.names.drop start.names.length) else none

end Path

end RvBoard
