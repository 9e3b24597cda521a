import WebIdl.Text.Alphanumeric
import WebIdl.Text.Blank

/-!
# Wrapping

Running text is laid out in lines of a given width.  It is first cut into pieces, between which a
line may end: words, the blanks between them, the parts of hyphenated words, and dashes of several
hyphens.  Every line then takes as many pieces as fit.  A piece that is too long for any line is cut
where the line is full, if possible behind a hyphen.
-/

namespace WebIdl.Text

/-! ## Pieces -/

/-- The characters that may stand next to a dash inside a word. -/
def isDashNeighbour (c : Char) : Bool :=
  isWordChar c || ['!', '"', '\'', '&', '.', ',', '?'].contains c

/-- May a line end behind a hyphen?  In front of it stand two letters, or two with a hyphen between
them, and so they do behind it.  `before` is what precedes the hyphen, the nearest character
first. -/
def dividesWord (before after : List Char) : Bool :=
  let isPair : List Char → Bool
    | a :: '-' :: b :: _ => isLetter a && isLetter b
    | a :: b :: _ => isLetter a && isLetter b
    | _ => false
  isPair before && isPair after

/-- Is there a dash, two or more hyphens, at the start of a text, with the rest satisfying
`follows`? -/
def startsWithDash (follows : Char → Bool) (text : List Char) : Bool :=
  2 ≤ (text.takeWhile (· == '-')).length && (text.dropWhile (· == '-')).head?.any follows

/-- May a line end between two parts of a text?  It may at the edges of blanks, behind the hyphens
of a word, and on both sides of a dash.  `before` starts with the character nearest to `after`. -/
def mayBreak (before after : List Char) : Bool :=
  match before, after with
  | a :: front, b :: _ =>
    isBlank a != isBlank b ||
    (a == '-' && dividesWord front after) ||
    (isDashNeighbour a && startsWithDash isWordChar after) ||
    (isWordChar b && startsWithDash isDashNeighbour before)
  | _, _ => false

/-- Cuts a text at every place where a line may end.  `before` is the text so far and `piece` the
last piece of it, both from the end. -/
def breakable (before piece : List Char) : List Char → List (List Char)
  | [] => if piece.isEmpty then [] else [piece.reverse]
  | c :: rest =>
    if mayBreak before (c :: rest) then
      piece.reverse :: breakable (c :: before) [c] rest
    else
      breakable (c :: before) (c :: piece) rest

/-! ## Lines -/

/-- The pieces at the front that fit into `room` columns, and the others. -/
def takeFitting (room : Nat) : List (List Char) → List (List Char) × List (List Char)
  | [] => ([], [])
  | piece :: rest =>
    if piece.length ≤ room then
      let (line, left) := takeFitting (room - piece.length) rest
      (piece :: line, left)
    else
      ([], piece :: rest)

/-- Where to cut a long piece if `room` columns are left: behind the last hyphen that fits, unless
there are only hyphens before it, and else where the room ends. -/
def cutLong (room : Nat) (piece : List Char) : Nat :=
  let front := (piece.take room).reverse.dropWhile (· != '-')
  if front.any (· != '-') then front.length else room

/-- The pieces of the next line, and those left for later lines. -/
def takeLine (width : Nat) (pieces : List (List Char)) : List (List Char) × List (List Char) :=
  let (line, left) := takeFitting width pieces
  match left with
  | [] => (line, [])
  | piece :: rest =>
    if piece.length ≤ width then
      (line, left)
    else
      let room := if width = 0 then 1 else width - line.flatten.length
      let cut := cutLong room piece
      (line ++ [piece.take cut], piece.drop cut :: rest)

/-- Counts the characters and the pieces together. -/
def weight : List (List Char) → Nat
  | [] => 0
  | piece :: rest => piece.length + 1 + weight rest

@[simp] theorem weight_nil : weight [] = 0 := rfl

@[simp] theorem weight_cons (piece : List Char) (rest : List (List Char)) :
    weight (piece :: rest) = piece.length + 1 + weight rest := rfl

theorem weight_takeFitting (room : Nat) (pieces : List (List Char)) :
    weight (takeFitting room pieces).1 + weight (takeFitting room pieces).2 = weight pieces := by
  induction pieces generalizing room with
  | nil => rfl
  | cons piece rest ih =>
    simp only [takeFitting]
    split
    · have := ih (room - piece.length)
      simp only [weight_cons]
      omega
    · simp

theorem takeFitting_of_lt_length {room : Nat} {piece : List Char} (rest : List (List Char))
    (h : room < piece.length) : takeFitting room (piece :: rest) = ([], piece :: rest) := by
  simp [takeFitting, Nat.not_le.mpr h]

theorem cutLong_pos {room : Nat} (piece : List Char) (h : 0 < room) : 0 < cutLong room piece := by
  simp only [cutLong]
  split
  · next hfront =>
    cases hf : List.dropWhile (· != '-') (List.take room piece).reverse with
    | nil => simp [hf] at hfront
    | cons c rest => simp
  · exact h

/-- Every line takes something. -/
theorem weight_takeLine_lt (width : Nat) (piece : List Char) (rest : List (List Char)) :
    weight (takeLine width (piece :: rest)).2 < weight (piece :: rest) := by
  by_cases hfits : piece.length ≤ width
  · have htotal := weight_takeFitting width (piece :: rest)
    have htaken : 0 < weight (takeFitting width (piece :: rest)).1 := by
      simp only [takeFitting, hfits, if_true, weight_cons]
      omega
    have hleft : weight (takeLine width (piece :: rest)).2 ≤
        weight (takeFitting width (piece :: rest)).2 := by
      simp only [takeLine]
      split
      · simp
      · next other others heq =>
        rw [heq]
        split
        · exact Nat.le_refl _
        · simp only [weight_cons, List.length_drop]
          omega
    omega
  · have hroom : 0 < if width = 0 then 1 else width - ([] : List (List Char)).flatten.length := by
      split
      · exact Nat.one_pos
      · exact Nat.pos_of_ne_zero (by simpa using ‹width ≠ 0›)
    have hcut := cutLong_pos piece hroom
    simp only [takeLine, takeFitting_of_lt_length rest (Nat.not_le.mp hfits), hfits, if_false,
      weight_cons, List.length_drop]
    omega

theorem weight_takeLine_le (width : Nat) (pieces : List (List Char)) :
    weight (takeLine width pieces).2 ≤ weight pieces := by
  cases pieces with
  | nil => simp [takeLine, takeFitting]
  | cons piece rest => exact Nat.le_of_lt (weight_takeLine_lt width piece rest)

/-- Drops the last piece of a line if it is only space. -/
def dropTrailingSpace (line : List (List Char)) : List (List Char) :=
  if line.getLast?.any (·.all isSpace) then line.dropLast else line

/-- Lays out pieces in lines.  No line ends with a piece that is only space, and none but the first
starts with one. -/
def layOut (width : Nat) (isFirst : Bool) (pieces : List (List Char)) : List (List Char) :=
  match pieces with
  | [] => []
  | piece :: rest =>
    let start := if !isFirst && piece.all isSpace then rest else piece :: rest
    let taken := takeLine width start
    let line := dropTrailingSpace taken.1
    if line.isEmpty then
      layOut width isFirst taken.2
    else
      line.flatten :: layOut width false taken.2
termination_by weight pieces
decreasing_by
  all_goals
    split
    · have := weight_takeLine_le width rest
      simp only [weight_cons]
      omega
    · exact weight_takeLine_lt width piece rest

/-- A text in lines of at most `width` columns. -/
def wrap (width : Nat) (text : List Char) : List (List Char) :=
  layOut width true (breakable [] [] (squeezeBlanks text))

end WebIdl.Text
