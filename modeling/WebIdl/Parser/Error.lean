import WebIdl.Text.Excerpt
import WebIdl.Grammar.Problem
import WebIdl.Token.Stream

/-!
# Syntax errors

A syntax error is a problem together with the place where it was found: the source, the line, the
token, the definition being read, and an excerpt of the text.
-/

namespace WebIdl

/-- The definition that is being read, for use in error messages. -/
structure Heading where
  tag : String
  name : String
  isPartial : Bool := false
deriving DecidableEq, Repr

/-- A problem and where it was found. -/
structure SyntaxError where
  problem : Problem
  sourceName : Option String
  line : Nat
  /-- The index of the token at which reading stopped. -/
  position : Nat
  excerpt : Excerpt
  heading : Option Heading := none
deriving DecidableEq, Repr

namespace SyntaxError

/-- The source of an error; an empty name counts as none. -/
def origin (error : SyntaxError) : String :=
  match error.sourceName with
  | none | some "" => ""
  | some name => s!" in {name}"

/-- The definition in which the error was found, if it has a name. -/
def context (error : SyntaxError) : String :=
  match error.heading with
  | none => ""
  | some heading =>
    if heading.name.isEmpty then
      ""
    else
      let lead := if heading.isPartial then "partial " else ""
      s!", since `{lead}{heading.tag} {heading.name}`"

/-- The whole message. -/
def message (error : SyntaxError) : String :=
  s!"Syntax error at line {error.line}{error.origin}{error.context}:\n" ++
    s!"{error.excerpt.render} {error.problem.message}"

/-- The error of a reserved identifier. -/
def ofReserved (text : String) (sourceName : Option String) (found : Token.Reserved) :
    SyntaxError where
  problem := .reservedIdentifier found.word
  sourceName := sourceName
  line := found.progress.line
  position := found.progress.index
  excerpt := Excerpt.around text found.progress.offset

end SyntaxError

/-- A text with its tokens. -/
structure Source where
  text : String
  name : Option String
  tokens : Array Token
deriving Repr

/-- Cuts a text into tokens. -/
def Source.read (text : String) (name : Option String) : Except SyntaxError Source :=
  match Token.stream text with
  | .ok tokens => .ok ⟨text, name, tokens.toArray⟩
  | .error found => .error (.ofReserved text name found)

end WebIdl
