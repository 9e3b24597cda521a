import WebIdl.Text.Pieces

/-!
# Preprocessor directives

Some files carry preprocessor lines such as `#if` and `#endif` between their definitions.  Masking
turns each line that starts with `#` into a line comment, so that it becomes trivia; unmasking
takes the comment mark away again.

A line that starts with `//#` before masking cannot be told from a masked one, so unmasking takes
its mark away too.  `Directive.collides` says whether a text has such a line.
-/

namespace WebIdl.Directive

/-- Turns a directive line into a comment. -/
def maskLine : List Char → List Char
  | '#' :: rest => '/' :: '/' :: '#' :: rest
  | line => line

/-- Turns a masked directive line back. -/
def unmaskLine : List Char → List Char
  | '/' :: '/' :: '#' :: rest => '#' :: rest
  | line => line

/-- Does a line look like a masked directive? -/
def isMasked : List Char → Bool
  | '/' :: '/' :: '#' :: _ => true
  | _ => false

/-- Hides the directives of a text in comments. -/
def mask (text : String) : String :=
  Text.mapLines maskLine text

/-- Brings the directives of a masked text back. -/
def unmask (text : String) : String :=
  Text.mapLines unmaskLine text

/-- Does the text have a line that unmasking would change? -/
def collides (text : String) : Bool :=
  (Text.lines text).any isMasked

end WebIdl.Directive
