/-!
# Blanks

Blanks divide the words of running text.  Besides them there are spaces that only count as empty
room, such as a space that does not break.
-/

namespace WebIdl.Text

/-- Blanks are tab, newline, vertical tab, form feed, carriage return and the ordinary space. -/
def isBlank (c : Char) : Bool :=
  c == ' ' || (9 ≤ c.toNat && c.toNat ≤ 13)

/-- Every space of Unicode, and the control characters that separate files, groups, records, units
and lines. -/
def isSpace (c : Char) : Bool :=
  let code := c.toNat
  isBlank c || (0x1C ≤ code && code ≤ 0x1F) || (0x2000 ≤ code && code ≤ 0x200A) ||
    [0x85, 0xA0, 0x1680, 0x2028, 0x2029, 0x202F, 0x205F, 0x3000].contains code

/-- Turns every run of blanks into one ordinary space. -/
def squeezeBlanks : List Char → List Char
  | [] => []
  | c :: rest =>
    if !isBlank c then
      c :: squeezeBlanks rest
    else if rest.head?.any isBlank then
      squeezeBlanks rest
    else
      ' ' :: squeezeBlanks rest

/-- Shortens every run of newlines to `limit` of them; `run` stand in front of the text. -/
def squeezeNewlines (limit run : Nat) : List Char → List Char
  | [] => []
  | '\n' :: rest =>
    if run < limit then
      '\n' :: squeezeNewlines limit (run + 1) rest
    else
      squeezeNewlines limit run rest
  | c :: rest => c :: squeezeNewlines limit 0 rest

end WebIdl.Text
