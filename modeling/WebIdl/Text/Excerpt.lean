/-!
# Pointing into a text

An `Excerpt` is the line of a text that holds a given place, together with the column of that
place.  Error messages show it as the line with a caret below.
-/

namespace WebIdl

/-- One line of a text and a column in it; columns count from zero. -/
structure Excerpt where
  line : String
  column : Nat
deriving DecidableEq, Repr

namespace Excerpt

/-- The excerpt around the character at `offset`.  The line runs from just after the last newline
before `offset` up to the first newline at or after it, less the carriage returns at its end; these
are left out of the line and never out of the column. -/
def around (text : String) (offset : Nat) : Excerpt :=
  let chars := text.toList
  let before := ((chars.take offset).reverse.takeWhile (· != '\n')).reverse
  let after := (chars.drop offset).takeWhile (· != '\n')
  let line := ((before ++ after).reverse.dropWhile (· == '\r')).reverse
  ⟨String.ofList line, before.length⟩

/-- The line, and a caret under its column. -/
def render (excerpt : Excerpt) : String :=
  excerpt.line ++ "\n" ++ String.ofList (List.replicate excerpt.column ' ') ++ "^"

end Excerpt

end WebIdl
