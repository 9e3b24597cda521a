import WebIdl.Proofs.Text.Lines
import WebIdl.Text.Excerpt

/-!
# The line that an excerpt shows

An excerpt finds its line by looking for the newlines around a place.  The lines of a text are
numbered by the newlines before them, and the two agree: the excerpt around a place shows the line
whose number is one more than the newlines in front of the place (`Excerpt.shows_around`).
-/

namespace WebIdl

namespace Text

/-! ## The pieces of a text, counted -/

/-- Cutting at a mark leaves the pieces on both sides. -/
theorem pieces_append_cons (mark : Char) (front back : List Char) :
    pieces mark (front ++ mark :: back) = pieces mark front ++ pieces mark back := by
  induction front with
  | nil => simp [pieces]
  | cons c front ih =>
      by_cases hc : c = mark
      · subst hc
        simp [pieces, ih]
      · rw [List.cons_append, pieces, if_neg hc, ih, pieces, if_neg hc]
        cases hfront : pieces mark front with
        | nil => exact absurd hfront (pieces_ne_nil mark front)
        | cons piece others => rfl

/-- There is one more piece than there are marks. -/
theorem length_pieces (mark : Char) (text : List Char) :
    (pieces mark text).length = text.count mark + 1 := by
  induction text with
  | nil => rfl
  | cons c rest ih =>
      by_cases hc : c = mark
      · subst hc
        simp [pieces, ih]
      · rw [pieces, if_neg hc, List.count_cons_of_ne hc, ← ih]
        cases hrest : pieces mark rest with
        | nil => exact absurd hrest (pieces_ne_nil mark rest)
        | cons piece others => rfl

/-- The first piece runs to the first mark. -/
theorem head?_pieces (mark : Char) (text : List Char) :
    (pieces mark text).head? = some (text.takeWhile (· != mark)) := by
  induction text with
  | nil => rfl
  | cons c rest ih =>
      by_cases hc : c = mark
      · simp [pieces, hc]
      · rw [pieces, if_neg hc, List.takeWhile_cons_of_pos (by simpa using hc)]
        cases hrest : pieces mark rest with
        | nil => exact absurd hrest (pieces_ne_nil mark rest)
        | cons piece others =>
            rw [hrest] at ih
            rw [← Option.some.inj ih]
            rfl

/-- The piece around a place: from the last mark before it to the first mark behind it. -/
theorem getElem?_pieces (mark : Char) (front back : List Char) :
    (pieces mark (front ++ back))[front.count mark]? =
      some ((front.reverse.takeWhile (· != mark)).reverse ++ back.takeWhile (· != mark)) := by
  have hhead (text : List Char) : (pieces mark text)[0]? = some (text.takeWhile (· != mark)) := by
    rw [← head?_pieces, List.head?_eq_getElem?]
  -- cut the front behind its last mark
  have hsplit : (front.reverse.dropWhile (· != mark)).reverse ++
      (front.reverse.takeWhile (· != mark)).reverse = front := by
    rw [← List.reverse_append, List.takeWhile_append_dropWhile, List.reverse_reverse]
  have hlast : ∀ c ∈ (front.reverse.takeWhile (· != mark)).reverse, (c != mark) = true :=
    fun c hc => List.all_eq_true.mp List.all_takeWhile c (List.mem_reverse.mp hc)
  generalize hshown : (front.reverse.takeWhile (· != mark)).reverse = shown at hsplit hlast
  have hnone : shown.count mark = 0 :=
    List.count_eq_zero.mpr fun hmem => by simpa using hlast mark hmem
  cases hbefore : front.reverse.dropWhile (· != mark) with
  | nil =>
      obtain rfl : shown = front := by simpa [hbefore] using hsplit
      rw [hnone, hhead, List.takeWhile_append_of_pos hlast]
  | cons c before =>
      obtain rfl : c = mark := by
        have hstop := List.head?_dropWhile_not (· != mark) front.reverse
        simpa [hbefore] using hstop
      rw [hbefore, List.reverse_cons, List.append_assoc] at hsplit
      rw [← hsplit, List.append_assoc, List.singleton_append, List.cons_append,
        pieces_append_cons, List.count_append, List.count_cons_self, hnone, Nat.zero_add,
        ← length_pieces, List.getElem?_append_right (Nat.le_refl _), Nat.sub_self, hhead,
        List.takeWhile_append_of_pos hlast]

end Text

namespace Excerpt

/-- The excerpt shows the line of the given number, counted from one, without the carriage returns
at its end. -/
def Shows (excerpt : Excerpt) (text : String) (number : Nat) : Prop :=
  0 < number ∧ ∃ line, (Text.lines text)[number - 1]? = some line ∧
    excerpt.line.toList = (line.reverse.dropWhile (· == '\r')).reverse

/-- The excerpt around a place shows the line that the place is on. -/
theorem shows_around (text : String) (offset : Nat) :
    (around text offset).Shows text (1 + (text.toList.take offset).count '\n') := by
  refine ⟨by omega, _, ?_, String.toList_ofList⟩
  rw [Text.lines, Nat.add_sub_cancel_left]
  have h := Text.getElem?_pieces '\n' (text.toList.take offset) (text.toList.drop offset)
  rwa [List.take_append_drop] at h

end Excerpt

end WebIdl
