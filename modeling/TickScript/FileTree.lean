-- Files held in memory, under the paths that lead to them.
import TickScript.Path

namespace TickScript

/-- Files with their texts, and the directory that paths start from. All paths are lists of
names from the root. -/
structure FileTree where
  files : List (List String × String)
  directories : List (List String)
  current : List String

/-- Why a file cannot be read. -/
inductive FileFault where
  | missing
  | notDirectory
  | isDirectory
deriving DecidableEq

/-- The fault in words. -/
def FileFault.message : FileFault → String
  | .missing => "No such file or directory (os error 2)"
  | .notDirectory => "Not a directory (os error 20)"
  | .isDirectory => "Is a directory (os error 21)"

namespace FileTree

/-- The names from the root to a path. -/
def names (path : String) : List String := (Path.segments path).filter (· ≠ "")

/-- The path is a directory: it is known as one or leads to a file or directory. -/
def isDirectory (t : FileTree) (names : List String) : Bool :=
  names.isEmpty || t.directories.any names.isPrefixOf ||
    t.files.any fun (file, _) => names.isPrefixOf file && names ≠ file

/-- Walks along segments from a directory. -/
def walk (t : FileTree) (place : List String) : List String → Except FileFault (List String)
  | [] => .ok place
  | name :: rest =>
    if !t.isDirectory place then
      .error (if (t.files.lookup place).isSome then .notDirectory else .missing)
    else if name = "" || name = "." then t.walk place rest
    else if name = ".." then t.walk place.dropLast rest
    else t.walk (place ++ [name]) rest

/-- The names from the root to what a path leads to. -/
def resolve (t : FileTree) (path : String) : Except FileFault (List String) :=
  if path = "" then .error .missing
  else t.walk (if Path.isAbsolute path then [] else t.current) (Path.segments path)

/-- The text of a file. -/
def read (t : FileTree) (path : String) : Except FileFault String := do
  let names ← t.resolve path
  match t.files.lookup names with
  | some text => .ok text
  | none => .error (if t.isDirectory names then .isDirectory else .missing)

/-- There is a file or directory at the path. -/
def contains (t : FileTree) (path : String) : Bool :=
  match t.resolve path with
  | .ok names => (t.files.lookup names).isSome || t.isDirectory names
  | .error _ => false

end FileTree

end TickScript
