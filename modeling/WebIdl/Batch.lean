import WebIdl.Files.Tree
import WebIdl.Dialect
import WebIdl.Validation.Rule

/-!
# Mending files in place

A batch goes through directories and mends their files: each is parsed, validated and, where the
dialect makes repairs, written back.  Files are independent of each other.  A batch stops at the
first thing that goes wrong; what was done before stays done, and the file at which it stopped is as
it was.
-/

namespace WebIdl

/-- The names of the files that a batch mends end like this. -/
def fileSuffix : String := ".webidl"

/-- Why a batch stopped. -/
inductive BatchError where
  | file (error : FileError)
  | unknownDialect (unknown : Dialect.Unknown)
  | parse (failure : Failure)
  /-- A rule wanted a token that is not there. -/
  | missing (token : Missing)
  | repair (error : RepairError)
deriving DecidableEq, Repr

/-- How far a batch has come. -/
structure Batch where
  tree : FileTree
  filesSeen : Nat := 0
  /-- The files that were written, with the number of repairs made in each. -/
  mended : List (Path × Nat) := []

namespace Batch

/-- The number of repairs made. -/
def repairs (batch : Batch) : Nat :=
  batch.mended.foldl (fun total (_, count) => total + count) 0

/-- The new text of a file and the number of repairs in it, or nothing if it needs none. -/
def mendText (dialect : Dialect) (text : String) (name : String) :
    Except BatchError (Option (String × Nat)) := do
  let document ← (dialect.parse text (some name)).result.mapError .parse
  let diagnostics ← (validate Rule.all document.items).mapError .missing
  let (items, count) ← (Diagnostic.fixAll dialect.admits diagnostics document.items).mapError .repair
  if count = 0 then
    return none
  return some ({ document with items }.write, count)

/-- Mends one file.  The answer is the changed tree and the number of repairs, which is zero if the
file was left alone. -/
def mendFile (dialect : Except Dialect.Unknown Dialect) (path : Path) (tree : FileTree) :
    Except BatchError (FileTree × Nat) := do
  let dialect ← dialect.mapError .unknownDialect
  let text ← (tree.read path).mapError .file
  match ← mendText dialect text path.fileName with
  | none => return (tree, 0)
  | some (changed, count) => return (tree.write path changed, count)

/-- Mends files in order. -/
def mendFiles (dialect : Except Dialect.Unknown Dialect) :
    List Path → Batch → Batch × Option BatchError
  | [], batch => (batch, none)
  | path :: rest, batch =>
    let seen := { batch with filesSeen := batch.filesSeen + 1 }
    match mendFile dialect path batch.tree with
    | .error error => (seen, some error)
    | .ok (_, 0) => mendFiles dialect rest seen
    | .ok (tree, count) =>
      mendFiles dialect rest { seen with tree, mended := seen.mended ++ [(path, count)] }

/-- Those of some paths that lead to files.  There is no answer if one of them cannot be looked up. -/
def onlyFiles (tree : FileTree) : List Path → Except FileError (List Path)
  | [] => .ok []
  | path :: rest => do
    let isFile ← tree.isFile path
    let files ← onlyFiles tree rest
    return if isFile then path :: files else files

/-- The files of a directory that a batch mends, in order. -/
def filesOf (tree : FileTree) (directory : Path) : Except FileError (List Path) := do
  let names ← tree.entryNames directory
  onlyFiles tree ((names.filter (·.endsWith fileSuffix)).map directory.push)

/-- Mends the files of directories in order. -/
def mendDirectories (dialect : Except Dialect.Unknown Dialect) :
    List Path → Batch → Batch × Option BatchError
  | [], batch => (batch, none)
  | directory :: rest, batch =>
    match filesOf batch.tree directory with
    | .error error => (batch, some (.file error))
    | .ok files =>
      match mendFiles dialect files batch with
      | (stopped, some error) => (stopped, some error)
      | (done, none) => mendDirectories dialect rest done

end Batch

end WebIdl
