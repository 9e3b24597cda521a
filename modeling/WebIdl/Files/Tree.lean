import WebIdl.Files.Path

/-!
# A tree of files

The part of a file system that a run works on: directories, and files with their bytes.
-/

namespace WebIdl

/-- Directories and files, each under a path that holds no `..` behind another name. -/
structure FileTree where
  directories : List Path := []
  files : List (Path × ByteArray) := []

/-- Why a file or directory could not be read. -/
inductive FileError where
  | notFound
  | notADirectory
  | isADirectory
  /-- A name, or the whole path, is longer than the file system takes. -/
  | nameTooLong
  /-- A name holds the character zero, which ends a path for the file system. -/
  | zeroInName
  /-- The bytes of a file are not UTF-8. -/
  | undecodable
deriving DecidableEq, Repr

def FileError.message : FileError → String
  | .notFound => "file not found"
  | .notADirectory => "not a directory"
  | .isADirectory => "is a directory"
  | .nameTooLong => "file name too long"
  | .zeroInName => "embedded null byte"
  | .undecodable => "file is not valid UTF-8"

namespace FileTree

/-- The most bytes that a name may have.  The number is the limit that one operating system sets for its
file systems (its `NAME_MAX`), and an assumption about where the program runs: nothing in the program
says it. -/
def nameLimit : Nat := 255

/-- The most bytes that a path may have.  This too is a limit of that operating system (its `PATH_MAX`,
without the zero byte at the end), and the program does not say it. -/
def pathLimit : Nat := 4095

/-- The bytes of the file at a place. -/
def bytes? (tree : FileTree) (place : Path) : Option ByteArray :=
  (tree.files.find? (·.1 == place)).map (·.2)

/-- Is there a directory at this place?  The root, the current directory and those around it always
exist. -/
def hasDirectory (tree : FileTree) (place : Path) : Bool :=
  place.names.all (· == "..") || tree.directories.contains place

/-- What is wrong with a place that is not a directory. -/
def directoryError (tree : FileTree) (place : Path) : FileError :=
  if (tree.bytes? place).isSome then .notADirectory else .notFound

/-- Follows names from a place; only directories can be passed through. -/
def follow (tree : FileTree) (place : Path) : List String → Except FileError Path
  | [] => .ok place
  | name :: rest =>
    if !tree.hasDirectory place then
      .error (tree.directoryError place)
    else if name.utf8ByteSize > nameLimit then
      .error .nameTooLong
    else
      follow tree (place.enter name) rest

/-- The place that a path leads to. -/
def resolve (tree : FileTree) (path : Path) : Except FileError Path :=
  if path.names.any (·.toList.contains '\x00') then
    .error .zeroInName
  else if path.render.utf8ByteSize > pathLimit then
    .error .nameTooLong
  else
    tree.follow ⟨path.isAbsolute, []⟩ path.names

/-- Does the path lead to a directory?  That cannot be said of a path that is too long. -/
def isDirectory (tree : FileTree) (path : Path) : Except FileError Bool :=
  match tree.resolve path with
  | .ok place => .ok (tree.hasDirectory place)
  | .error .nameTooLong => .error .nameTooLong
  | .error _ => .ok false

/-- Does the path lead to a file?  That cannot be said of a path that is too long. -/
def isFile (tree : FileTree) (path : Path) : Except FileError Bool :=
  match tree.resolve path with
  | .ok place => .ok (!tree.hasDirectory place && (tree.bytes? place).isSome)
  | .error .nameTooLong => .error .nameTooLong
  | .error _ => .ok false

/-- The names of the entries of a directory, in the order of their characters. -/
def entryNames (tree : FileTree) (path : Path) : Except FileError (List String) := do
  let place ← tree.resolve path
  if tree.hasDirectory place then
    let entries := (tree.directories ++ tree.files.map (·.1)).filter fun entry =>
      entry.parent == place && !entry.names.isEmpty
    return (entries.map Path.fileName).mergeSort fun a b => decide (a ≤ b)
  else
    throw (tree.directoryError place)

/-- Reads a text file, whose line ends are left as they are. -/
def read (tree : FileTree) (path : Path) : Except FileError String := do
  let place ← tree.resolve path
  if tree.hasDirectory place then
    throw .isADirectory
  match tree.bytes? place with
  | none => throw .notFound
  | some bytes =>
    match String.fromUTF8? bytes with
    | none => throw .undecodable
    | some text => return text

/-- Replaces the contents of a file. -/
def write (tree : FileTree) (path : Path) (text : String) : FileTree :=
  match tree.resolve path with
  | .error _ => tree
  | .ok place =>
    { tree with
      files := tree.files.map fun (file, bytes) =>
        if file == place then (file, text.toUTF8) else (file, bytes) }

end FileTree

end WebIdl
