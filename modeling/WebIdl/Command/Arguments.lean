import WebIdl.Text.Digit
import WebIdl.Text.Quoted

/-!
# Command-line arguments

The command takes one option, `-h` or `--help`, and one or more directories.  The long option may be
cut short.  The directories stand together: once they have ended, further words are not recognised.
Everything behind `--` is a directory.
-/

namespace WebIdl.Command

/-- What the arguments ask for. -/
inductive Request where
  | help
  | run (directories : List String)
  /-- The option for help was given a value. -/
  | valueForHelp (value : String)
  | noDirectory
  | unrecognised (words : List String)
deriving DecidableEq, Repr

/-- The name of the argument that takes directories. -/
def directoriesName : String := "path-to-webidl"

/-- What a word on the command line is. -/
inductive Word where
  | directory (text : String)
  /-- The first `--`. -/
  | separator
  | help
  | valueForHelp (value : String)
  | unknownOption (text : String)
deriving DecidableEq, Repr

/-- The text before the first equals sign, and the text behind it if there is one. -/
def splitValue (text : List Char) : List Char × Option (List Char) :=
  match text.dropWhile (· != '=') with
  | [] => (text, none)
  | _ :: value => (text.takeWhile (· != '='), some value)

/-- A negative number, in the digits of any script, which is not taken for an option.  A newline may
follow it. -/
def isNegativeNumber : List Char → Bool
  | '-' :: rest =>
    let number := if rest.getLast? == some '\n' then rest.dropLast else rest
    match number.dropWhile Text.isDecimalDigit with
    | [] => !number.isEmpty
    | '.' :: fraction => !fraction.isEmpty && fraction.all Text.isDecimalDigit
    | _ => false
  | _ => false

/-- More letters in the same word as `-h`.  Each must be an `h` again; from the first other one on
they are a value, which is refused. -/
def moreLetters : List Char → Word
  | [] => .help
  | 'h' :: rest => moreLetters rest
  | value => .valueForHelp (String.ofList value)

/-- What follows `-h` in the same word.  An equals sign directly behind it is passed over, but then
something has to follow. -/
def afterShortHelp : List Char → Word
  | ['='] => .valueForHelp ""
  | '=' :: rest => moreLetters rest
  | rest => moreLetters rest

/-- Is this a word that an option cannot be? -/
def isPlain (text : List Char) : Bool :=
  text.head? != some '-' || text.length == 1 || isNegativeNumber text || text.contains ' '

/-- Classifies one word. -/
def Word.ofString (text : String) : Word :=
  let chars := text.toList
  match chars with
  | '-' :: 'h' :: rest => afterShortHelp rest
  | '-' :: '-' :: _ =>
    let (option, value) := splitValue chars
    if option.isPrefixOf "--help".toList then
      match value with
      | none => .help
      | some value => .valueForHelp (String.ofList value)
    else if isPlain chars then
      .directory text
    else
      .unknownOption text
  | _ => if isPlain chars then .directory text else .unknownOption text

/-- Classifies the words of a command line; behind `--` all are directories. -/
def words : List String → List Word
  | [] => []
  | "--" :: rest => .separator :: rest.map .directory
  | text :: rest => Word.ofString text :: words rest

/-- How far the words have been read. -/
structure Reading where
  directories : List String := []
  unrecognised : List String := []
  /-- Have the directories ended? -/
  isClosed : Bool := false

/-- Reads the words in order. -/
def read (reading : Reading) : List Word → Request
  | [] =>
    if reading.directories.isEmpty then .noDirectory
    else if reading.unrecognised.isEmpty then .run reading.directories
    else .unrecognised reading.unrecognised
  | .help :: _ => .help
  | .valueForHelp value :: _ => .valueForHelp value
  | .unknownOption text :: rest =>
    read { reading with
      unrecognised := reading.unrecognised ++ [text]
      isClosed := !reading.directories.isEmpty } rest
  | .separator :: rest =>
    if reading.isClosed then
      read { reading with unrecognised := reading.unrecognised ++ ["--"] } rest
    else
      read reading rest
  | .directory text :: rest =>
    if reading.isClosed then
      read { reading with unrecognised := reading.unrecognised ++ [text] } rest
    else
      read { reading with directories := reading.directories ++ [text] } rest

/-- What a command line asks for. -/
def Request.ofArguments (arguments : List String) : Request :=
  read {} (words arguments)

/-- What is wrong with a request that cannot be carried out. -/
def Request.complaint? : Request → Option String
  | .help | .run _ => none
  | .valueForHelp value =>
    some s!"argument -h/--help: ignored explicit argument {Text.quoted value}"
  | .noDirectory => some s!"the following arguments are required: {directoriesName}"
  | .unrecognised words => some ("unrecognized arguments: " ++ " ".intercalate words)

end WebIdl.Command
