/-!
# Tables of bounds

A property of code points is tabulated by the code points where it begins and ends to hold, in
increasing order.  It does not hold below the first of them, holds from there up to the second, and
so on in turn.
-/

namespace WebIdl.Text

/-- How many of `bounds` are at most `code`, found by halving the range `low … low + width`.  The
bounds below `low` are at most `code`, those from `low + width` on are greater. -/
def countBounds (bounds : Array Nat) (code : Nat) (low width : Nat) : Nat :=
  if width = 0 then
    low
  else
    let half := width / 2
    if bounds.getD (low + half) 0 ≤ code then
      countBounds bounds code (low + half + 1) (width - half - 1)
    else
      countBounds bounds code low half
termination_by width

/-- Does the property that `bounds` tabulates hold of a code point? -/
def isWithin (bounds : Array Nat) (code : Nat) : Bool :=
  countBounds bounds code 0 bounds.size % 2 == 1

end WebIdl.Text
