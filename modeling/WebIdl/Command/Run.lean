import WebIdl.Batch
import WebIdl.Command.Help

/-!
# The command

Mends the files of the directories given as arguments.  The exit status is zero on success, and two
if the arguments are wrong, a directory is missing or a file cannot be parsed.
-/

namespace WebIdl.Command

/-- An error that the command does not handle. -/
inductive Failure where
  | batch (error : BatchError)
  /-- The help text cannot be written. -/
  | help (error : Text.TemplateError)

/-- How a run of the command ended, and what it printed. -/
structure Result where
  /-- The exit status, or an error that the command does not handle. -/
  status : Except Failure Nat
  stdout : String := ""
  stderr : String := ""
  tree : FileTree

/-- The name that the command goes by unless it is given one. -/
def programName (dialect : String) : Option String → String
  | none | some "" => s!"idlmend-{dialect}"
  | some name => name

/-- The line that reports a file that was mended. -/
def mendedLine (path : Path) (count : Nat) : String :=
  s!"INFO idlmend.rewrite: {path.render}: applied {count} fixes\n"

/-- Mends the files of directories, all of which must exist before anything is done. -/
def mend (dialect : String) (directories : List String) (tree : FileTree) : Result :=
  let isMissing (name : String) : Except FileError Bool := do
    return !(← tree.isDirectory (Path.ofString name))
  match directories.findM? isMissing with
  | .error error => { status := .error (.batch (.file error)), tree }
  | .ok (some missing) =>
    { status := .ok 2, stderr := s!"[ERROR] Not a directory: {missing}\n", tree }
  | .ok none =>
    let (batch, error) :=
      Batch.mendDirectories (Dialect.named dialect) (directories.map Path.ofString) { tree }
    let log := String.join (batch.mended.map fun (path, count) => mendedLine path count)
    match error with
    | none => { status := .ok 0, stderr := log, tree := batch.tree }
    | some (.parse (.syntaxError error)) =>
      { status := .ok 2
        stderr := log ++ "[SYNTAX ERROR]\n" ++ error.message ++ "\n"
        tree := batch.tree }
    | some error => { status := .error (.batch error), stderr := log, tree := batch.tree }

/-- Runs the command for files of a dialect. -/
def run (dialect : String) (program : Option String) (arguments : List String)
    (tree : FileTree) : Result :=
  let program := programName dialect program
  match Request.ofArguments arguments with
  | .help =>
    match helpText program dialect with
    | .ok text => { status := .ok 0, stdout := text, tree }
    | .error error => { status := .error (.help error), tree }
  | .run directories => mend dialect directories tree
  | request =>
    let complaint := request.complaint?.getD ""
    { status := .ok 2, stderr := usage program ++ s!"{program}: error: {complaint}\n", tree }

end WebIdl.Command
