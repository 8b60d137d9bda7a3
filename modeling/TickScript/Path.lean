-- Paths of files, as texts with slashes.
namespace TickScript.Path

/-- The segments of a text between slashes, given the characters of the current one, latest
first. -/
def splitFrom (current : List Char) : List Char → List String
  | [] => [String.ofList current.reverse]
  | '/' :: rest => String.ofList current.reverse :: splitFrom [] rest
  | c :: rest => splitFrom (c :: current) rest

/-- The segments of a path between slashes. -/
def segments (path : String) : List String := splitFrom [] path.toList

/-- The path starts at the root. -/
def isAbsolute (path : String) : Bool := path.toList.head? = some '/'

/-- The segment counts, at the given index. Empty segments do not count, and a point only at
the very start. -/
def counts : String × Nat → Bool
  | ("", _) => false
  | (".", i) => i = 0
  | _ => true

/-- The segments up to the last one that counts. -/
def trimSegments (segments : List (String × Nat)) : List (String × Nat) :=
  (segments.reverse.dropWhile fun s => !counts s).reverse

/-- The last segment, if it is a name. -/
def fileName? (path : String) : Option String :=
  match (trimSegments (segments path).zipIdx).getLast? with
  | some (name, _) => if name = "." || name = ".." then none else some name
  | none => none

/-- The path without its last segment. -/
def parent? (path : String) : Option String :=
  match trimSegments (segments path).zipIdx with
  | [] => none
  | counted =>
    match trimSegments counted.dropLast with
    | [] => some (if isAbsolute path then "/" else "")
    | above => some ("/".intercalate (above.map (·.1)))

/-- A path as seen from a directory. -/
def join (directory path : String) : String :=
  if isAbsolute path || directory = "" then path
  else if directory.toList.getLast? = some '/' then directory ++ path
  else directory ++ "/" ++ path

end TickScript.Path
