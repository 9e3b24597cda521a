/-!
# Replacing the first occurrence

`replaceFirst?` looks for a piece of text from the left and replaces the first place where it
stands.  The empty piece stands at the start of every text, so replacing it inserts there.
-/

namespace WebIdl.Text

/-- The text with the first occurrence of `target` replaced, if there is one. -/
def replaceFirst? (target replacement : List Char) : List Char → Option (List Char)
  | [] => if target.isEmpty then some replacement else none
  | c :: rest =>
    if target.isPrefixOf (c :: rest) then
      some (replacement ++ (c :: rest).drop target.length)
    else
      (replaceFirst? target replacement rest).map (c :: ·)

end WebIdl.Text
