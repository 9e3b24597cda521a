import WebIdl.Text.Pieces

/-!
# Paths

A path is a list of names, counted from the root of the file system or from the current directory.
Empty names and `.` are left out when a path is read, and `..` is kept: only the file system can say
what it leads to.
-/

namespace WebIdl

/-- A path to a file or directory. -/
structure Path where
  isAbsolute : Bool := false
  names : List String
deriving DecidableEq, Repr

namespace Path

/-- Reads a path. -/
def ofString (text : String) : Path where
  isAbsolute := text.toList.head? == some '/'
  names := ((Text.pieces '/' text.toList).map String.ofList).filter fun name =>
    name != "" && name != "."

/-- Writes a path; the current directory is a dot. -/
def render (path : Path) : String :=
  match path.isAbsolute, path.names with
  | true, names => "/" ++ "/".intercalate names
  | false, [] => "."
  | false, names => "/".intercalate names

/-- The path of an entry of a directory. -/
def push (path : Path) (name : String) : Path :=
  { path with names := path.names ++ [name] }

/-- The last name of a path. -/
def fileName (path : Path) : String :=
  path.names.getLastD ""

/-- The directory of an entry. -/
def parent (path : Path) : Path :=
  { path with names := path.names.dropLast }

/-- One step along a path.  `..` leads back, except from the current directory, which it leaves. -/
def enter (path : Path) (name : String) : Path :=
  if name == ".." then
    match path.names.getLast?, path.isAbsolute with
    | none, true => path
    | none, false | some "..", _ => path.push name
    | some _, _ => path.parent
  else
    path.push name

end Path

end WebIdl
