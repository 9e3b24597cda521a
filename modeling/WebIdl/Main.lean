import WebIdl.Command.Run

/-!
# The program

Reads the directories named on the command line from disk, runs the command on them, and writes back
the files that it changed.  A program whose name ends in `-webidl` works on files of the standard
language, any other on Gecko's.
-/

namespace WebIdl.Main

/-- The places that a path leads through, and the place that it leads to. -/
def steps (path : Path) : List Path × Path :=
  path.names.foldl (fun (passed, place) name =>
    (passed ++ [place], place.enter name)) ([], ⟨path.isAbsolute, []⟩)

/-- Adds a directory on disk, and the files in it that can be mended, to a tree. -/
def load (tree : FileTree) (name : String) : IO FileTree := do
  let directory := (← IO.currentDir) / name
  if !(← directory.isDir) then
    return tree
  let (passed, place) := steps (Path.ofString name)
  let mut files := #[]
  for entry in ← directory.readDir do
    let file := place.push entry.fileName
    if entry.fileName.endsWith fileSuffix && !(← entry.path.isDir) &&
        (tree.bytes? file).isNone then
      files := files.push (file, ← IO.FS.readBinFile entry.path)
  return {
    directories := tree.directories ++ passed ++ [place]
    files := tree.files ++ files.toList }

/-- Writes back the files that differ. -/
def save (before after : FileTree) : IO Unit := do
  let base ← IO.currentDir
  for ((path, old), (_, new)) in before.files.zip after.files do
    if old != new then
      IO.FS.writeBinFile (base / path.render) new

/-- What to say about an error that the command does not handle. -/
def complaint : Command.Failure → String
  | .batch (.file error) => error.message
  | .batch (.unknownDialect unknown) => unknown.message
  | .batch (.parse (.syntaxError error)) => error.message
  | .batch (.parse _) => "the parser stopped"
  | .batch (.missing found) => found.message
  | .batch (.repair error) => error.message
  | .help error => error.message

end WebIdl.Main

open WebIdl in
/-- Runs the command. -/
def main (arguments : List String) : IO UInt32 := do
  let program := (← IO.appPath).fileName.getD ""
  let dialect := if program.endsWith "-webidl" then Dialect.standard else Dialect.gecko
  let tree ←
    match Command.Request.ofArguments arguments with
    | .run directories => directories.foldlM Main.load {}
    | _ => pure {}
  let result := Command.run dialect.name none arguments tree
  Main.save tree result.tree
  IO.print result.stdout
  IO.eprint result.stderr
  match result.status with
  | .ok status => return status.toUInt32
  | .error error =>
    IO.eprintln (Main.complaint error)
    return 1
