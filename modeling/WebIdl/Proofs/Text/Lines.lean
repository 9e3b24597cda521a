import WebIdl.Text.Pieces

/-!
# Cutting what was joined

`WebIdl.Text.Pieces` shows that joining undoes cutting.  The other way round needs the pieces to be
free of the mark, and there must be at least one of them.  An edit that puts no mark into a piece
therefore acts on the lines of a text one by one, and what it does to the text is what it does to
the lines (`lines_mapLines`, `mapLines_eq_self_iff`).
-/

namespace WebIdl.Text

theorem mark_notMem_of_mem_pieces {mark : Char} {text piece : List Char}
    (h : piece ∈ pieces mark text) : mark ∉ piece := by
  induction text generalizing piece with
  | nil =>
      obtain rfl : piece = [] := by simpa [pieces] using h
      simp
  | cons c rest ih =>
      by_cases hc : c = mark
      · rw [pieces, if_pos hc] at h
        rcases List.mem_cons.mp h with rfl | h
        · simp
        · exact ih h
      · rw [pieces, if_neg hc] at h
        cases hr : pieces mark rest with
        | nil => exact absurd hr (pieces_ne_nil mark rest)
        | cons first others =>
            rw [hr] at h ih
            rcases List.mem_cons.mp h with rfl | h
            · have hfirst : mark ∉ first := ih (List.mem_cons_self ..)
              simp [Ne.symm hc, hfirst]
            · exact ih (List.mem_cons_of_mem _ h)

theorem pieces_eq_singleton {mark : Char} {piece : List Char} (h : mark ∉ piece) :
    pieces mark piece = [piece] := by
  induction piece with
  | nil => rfl
  | cons c rest ih =>
      simp only [List.mem_cons, not_or] at h
      rw [pieces, if_neg (Ne.symm h.1), ih h.2]

theorem pieces_append_mark {mark : Char} {piece : List Char} (h : mark ∉ piece)
    (rest : List Char) : pieces mark (piece ++ mark :: rest) = piece :: pieces mark rest := by
  induction piece with
  | nil => simp [pieces]
  | cons c others ih =>
      simp only [List.mem_cons, not_or] at h
      rw [List.cons_append, pieces, if_neg (Ne.symm h.1), ih h.2]

/-- Cutting undoes joining, as long as no piece holds the mark. -/
theorem pieces_joinPieces {mark : Char} {parts : List (List Char)} (hne : parts ≠ [])
    (h : ∀ piece ∈ parts, mark ∉ piece) : pieces mark (joinPieces mark parts) = parts := by
  induction parts with
  | nil => exact absurd rfl hne
  | cons piece others ih =>
      have hpiece : mark ∉ piece := h piece (List.mem_cons_self ..)
      cases others with
      | nil => exact pieces_eq_singleton hpiece
      | cons next rest =>
          rw [joinPieces_cons piece (List.cons_ne_nil next rest), pieces_append_mark hpiece,
            ih (List.cons_ne_nil next rest) fun other hother =>
              h other (List.mem_cons_of_mem _ hother)]

/-! ## Edits line by line -/

/-- An edit that puts no newline into a line. -/
def KeepsLines (edit : List Char → List Char) : Prop :=
  ∀ line, '\n' ∉ line → '\n' ∉ edit line

theorem KeepsLines.comp {outer inner : List Char → List Char} (houter : KeepsLines outer)
    (hinner : KeepsLines inner) : KeepsLines (outer ∘ inner) :=
  fun line hline => houter _ (hinner line hline)

theorem newline_notMem_of_mem_lines {text : String} {line : List Char}
    (h : line ∈ lines text) : '\n' ∉ line :=
  mark_notMem_of_mem_pieces h

theorem lines_mapLines {edit : List Char → List Char} (hedit : KeepsLines edit)
    (text : String) : lines (mapLines edit text) = (lines text).map edit := by
  unfold mapLines
  rw [lines, String.toList_ofList]
  refine pieces_joinPieces ?_ ?_
  · rw [ne_eq, List.map_eq_nil_iff]
    exact pieces_ne_nil _ _
  · intro piece hpiece
    obtain ⟨line, hline, rfl⟩ := List.mem_map.mp hpiece
    exact hedit line (newline_notMem_of_mem_lines hline)

/-- A text is known by its lines. -/
theorem eq_of_lines_eq {first second : String} (h : lines first = lines second) :
    first = second := by
  have hjoin := congrArg (joinPieces '\n') h
  simp only [lines, joinPieces_pieces] at hjoin
  exact String.toList_inj.mp hjoin

theorem mapLines_mapLines {inner : List Char → List Char} (hinner : KeepsLines inner)
    (outer : List Char → List Char) (text : String) :
    mapLines outer (mapLines inner text) = mapLines (outer ∘ inner) text := by
  rw [mapLines, lines_mapLines hinner, List.map_map, mapLines]

/-- An edit leaves a text as it is exactly if it leaves every line as it is. -/
theorem mapLines_eq_self_iff {edit : List Char → List Char} (hedit : KeepsLines edit)
    {text : String} : mapLines edit text = text ↔ ∀ line ∈ lines text, edit line = line := by
  constructor
  · intro h line hline
    have hlines := lines_mapLines hedit text
    rw [h] at hlines
    exact List.map_inj_left.mp (hlines.symm.trans (List.map_id' _).symm) line hline
  · intro h
    apply eq_of_lines_eq
    rw [lines_mapLines hedit, List.map_congr_left h, List.map_id']

end WebIdl.Text
