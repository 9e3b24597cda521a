/-!
# Cutting a text at a mark

A text is cut into pieces at every occurrence of one character, the mark.  There is always at least
one piece, and a mark at the end of the text opens a last piece that is empty.  Cutting and joining
are inverse to each other, which is what makes it safe to edit a text piece by piece.
-/

namespace WebIdl.Text

/-- The pieces of a text between the marks. -/
def pieces (mark : Char) : List Char → List (List Char)
  | [] => [[]]
  | c :: rest =>
    if c = mark then
      [] :: pieces mark rest
    else
      match pieces mark rest with
      | [] => [[c]]
      | piece :: others => (c :: piece) :: others

/-- Puts pieces together again, with one mark between neighbours. -/
def joinPieces (mark : Char) : List (List Char) → List Char
  | [] => []
  | [piece] => piece
  | piece :: others => piece ++ mark :: joinPieces mark others

theorem pieces_ne_nil (mark : Char) (text : List Char) : pieces mark text ≠ [] := by
  cases text with
  | nil => simp [pieces]
  | cons c rest =>
    simp only [pieces]
    split
    · simp
    · split <;> simp

theorem joinPieces_cons {mark : Char} {others : List (List Char)} (piece : List Char)
    (h : others ≠ []) :
    joinPieces mark (piece :: others) = piece ++ mark :: joinPieces mark others := by
  cases others with
  | nil => exact absurd rfl h
  | cons next rest => rfl

@[simp] theorem joinPieces_pieces (mark : Char) (text : List Char) :
    joinPieces mark (pieces mark text) = text := by
  induction text with
  | nil => rfl
  | cons c rest ih =>
    by_cases h : c = mark
    · subst h
      rw [show pieces c (c :: rest) = [] :: pieces c rest by simp [pieces],
        joinPieces_cons _ (pieces_ne_nil c rest), ih]
      rfl
    · cases hr : pieces mark rest with
      | nil => exact absurd hr (pieces_ne_nil mark rest)
      | cons piece others =>
        rw [hr] at ih
        have hc : pieces mark (c :: rest) = (c :: piece) :: others := by simp [pieces, h, hr]
        rw [hc]
        cases others with
        | nil => simpa [joinPieces] using ih
        | cons next tail => simpa [joinPieces] using ih

/-! ## Lines -/

/-- The lines of a text.  A text is cut at newlines and at nothing else, so a carriage return stays
at the end of the line that it closes. -/
def lines (text : String) : List (List Char) :=
  pieces '\n' text.toList

/-- Applies `edit` to every line of a text. -/
def mapLines (edit : List Char → List Char) (text : String) : String :=
  String.ofList (joinPieces '\n' ((lines text).map edit))

end WebIdl.Text
