import WebIdl.Command.Arguments
import WebIdl.Text.Replace
import WebIdl.Text.Template
import WebIdl.Text.Wrap

/-!
# Usage and help

The texts that explain the command, laid out for a terminal of eighty columns, of which the last two
stay free.  They have no more than one empty line in a place, whatever the names of the program and
the dialect bring with them.
-/

namespace WebIdl.Command

/-- The number of columns that texts may take. -/
def columns : Nat := 78

def blanks (count : Nat) : String :=
  String.ofList (List.replicate count ' ')

/-- Fills lines with words, starting behind `used` columns.  Every line holds at least one word. -/
def fill (indent used : Nat) (line : List String) : List String → List (List String)
  | [] => if line.isEmpty then [] else [line]
  | word :: rest =>
    if used + word.length > columns && !line.isEmpty then
      line :: fill indent (indent + word.length + 1) [word] rest
    else
      fill indent (used + word.length + 1) (line ++ [word]) rest

/-- Lines of words behind an indent. -/
def indented (indent : Nat) (words : List String) : List String :=
  (fill indent indent [] words).map fun line => blanks indent ++ " ".intercalate line

def usageWord : String := "usage: "

/-- Shortens every run of newlines to two, so that one line is empty. -/
def tidy (text : String) : String :=
  String.ofList (Text.squeezeNewlines 2 0 text.toList)

/-- The usage, in one line if it fits.  Otherwise a short program name is followed by the options,
with the directories on lines of their own, and a long one has a line to itself. -/
def usage (program : String) : String :=
  let options := ["[-h]"]
  let directories := [directoriesName, s!"[{directoriesName} ...]"]
  let flat := usageWord ++ " ".intercalate (program :: options ++ directories)
  let start := usageWord.length + program.length
  let lines :=
    if flat.length ≤ columns then
      [flat]
    else if 4 * start ≤ 3 * columns then
      let first := usageWord ++ " ".intercalate (program :: options)
      first :: indented (start + 1) directories
    else
      (usageWord ++ program) :: indented usageWord.length (options ++ directories)
  tidy ("\n".intercalate lines ++ "\n")

/-- The name under which a description refers to the program. -/
def programField : String := "prog"

/-- Does a text refer to the program? -/
def namesProgram (text : List Char) : Bool :=
  (Text.replaceFirst? s!"%({programField})".toList [] text).isSome

/-- What the command does with files of a dialect.  If the dialect's name makes the text refer to
the program, it is a template. -/
def description (program dialect : String) : Except Text.TemplateError String := do
  let text := s!"Parse and fix up {dialect} Web IDL files in place"
  let text ←
    if namesProgram text.toList then Text.Template.fill [(programField, program)] text
    else pure text
  return "\n".intercalate ((Text.wrap columns text.toList).map String.ofList)

/-- The help text. -/
def helpText (program dialect : String) : Except Text.TemplateError String := do
  return tidy <|
    usage program ++ "\n" ++ (← description program dialect) ++ "\n\n" ++
    "positional arguments:\n" ++
    s!"  {directoriesName}  directory holding .webidl files\n\n" ++
    "options:\n" ++
    "  -h, --help      show this help message and exit\n"

end WebIdl.Command
