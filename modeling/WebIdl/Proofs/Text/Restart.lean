import Mathlib.Data.List.Forall2
import WebIdl.Proofs.Text.Lines

/-!
# Lines that start anew

An edit of lines may look at nothing but how a line starts: a line that starts with one mark gets
another mark in its place, and every other line stays as it is (`Restarts`).  No line starts with
both marks, so that two kinds of lines matter.  Those that start with the old mark are changed, and
none of them is left: to edit a text twice is to edit it once (`Restarts.mapLines_mapLines_self`).
Those that start with the new mark are not changed, but afterwards they cannot be told from the
changed ones.  The edit in the other direction changes them too, and so it leads back to the text
only if there were none (`Restarts.back_eq_self_iff`).
-/

namespace WebIdl.Text

/-- What becomes of a line whose start `old` is replaced by `new`.  A line that does not start with
`old` stays as it is. -/
def Restarted (old new line edited : List Char) : Prop :=
  (∃ rest, line = old ++ rest ∧ edited = new ++ rest) ∨
    ((∀ rest, line ≠ old ++ rest) ∧ edited = line)

/-- An edit that replaces the start `old` of a line by `new`.  No line starts with both of them, and
the new start holds no newline. -/
structure Restarts (old new : List Char) (edit : List Char → List Char) : Prop where
  restarted (line : List Char) : Restarted old new line (edit line)
  apart (rest tail : List Char) : old ++ rest ≠ new ++ tail
  newline_notMem : '\n' ∉ new

namespace Restarts

variable {old new : List Char} {edit back : List Char → List Char}

/-! ## One line -/

theorem keepsLines (h : Restarts old new edit) : KeepsLines edit := by
  intro line hline
  rcases h.restarted line with ⟨rest, hrest, hedit⟩ | ⟨-, hedit⟩
  · rw [hrest, List.mem_append, not_or] at hline
    rw [hedit, List.mem_append, not_or]
    exact ⟨h.newline_notMem, hline.2⟩
  · rwa [hedit]

theorem edit_append (h : Restarts old new edit) (rest : List Char) :
    edit (old ++ rest) = new ++ rest := by
  rcases h.restarted (old ++ rest) with ⟨tail, hline, hedit⟩ | ⟨hother, -⟩
  · obtain rfl := List.append_cancel_left hline
    exact hedit
  · exact absurd rfl (hother rest)

/-- An edited line does not have the old start. -/
theorem edit_ne (h : Restarts old new edit) (line tail : List Char) : edit line ≠ old ++ tail := by
  rcases h.restarted line with ⟨rest, -, hedit⟩ | ⟨hother, hedit⟩
  · rw [hedit]
    exact (h.apart tail rest).symm
  · rw [hedit]
    exact hother tail

theorem edit_eq_self_iff (h : Restarts old new edit) {line : List Char} :
    edit line = line ↔ ∀ rest, line ≠ old ++ rest := by
  constructor
  · intro hedit rest
    rw [← hedit]
    exact h.edit_ne line rest
  · intro hother
    rcases h.restarted line with ⟨rest, hline, -⟩ | ⟨-, hedit⟩
    · exact absurd hline (hother rest)
    · exact hedit

theorem back_edit_eq_self_iff (h : Restarts old new edit) (hback : Restarts new old back)
    {line : List Char} : back (edit line) = line ↔ ∀ rest, line ≠ new ++ rest := by
  rcases h.restarted line with ⟨rest, rfl, hedit⟩ | ⟨-, hedit⟩
  · rw [hedit, hback.edit_append]
    exact iff_of_true rfl (h.apart rest)
  · -- the first edit leaves the line alone, and it is up to the second one
    rw [hedit]
    exact hback.edit_eq_self_iff

/-! ## Whole texts -/

/-- The lines of the edited text, one by one. -/
theorem forall₂_lines (h : Restarts old new edit) (text : String) :
    List.Forall₂ (Restarted old new) (lines text) (lines (mapLines edit text)) := by
  rw [lines_mapLines h.keepsLines, List.forall₂_map_right_iff, List.forall₂_same]
  exact fun line _ => h.restarted line

/-- No line of an edited text has the old start. -/
theorem ne_of_mem_lines (h : Restarts old new edit) {text : String} {line : List Char}
    (hline : line ∈ lines (mapLines edit text)) (tail : List Char) : line ≠ old ++ tail := by
  rw [lines_mapLines h.keepsLines] at hline
  obtain ⟨inner, -, rfl⟩ := List.mem_map.mp hline
  exact h.edit_ne inner tail

/-- A text stays as it is exactly if no line of it has the old start. -/
theorem mapLines_eq_self_iff (h : Restarts old new edit) {text : String} :
    mapLines edit text = text ↔ ∀ line ∈ lines text, ∀ rest, line ≠ old ++ rest := by
  rw [Text.mapLines_eq_self_iff h.keepsLines]
  exact forall₂_congr fun line _ => h.edit_eq_self_iff

theorem mapLines_mapLines_self (h : Restarts old new edit) (text : String) :
    mapLines edit (mapLines edit text) = mapLines edit text :=
  h.mapLines_eq_self_iff.mpr fun _ hline => h.ne_of_mem_lines hline

/-- The edit in the other direction leads back exactly if no line had the new start before. -/
theorem back_eq_self_iff (h : Restarts old new edit) (hback : Restarts new old back)
    {text : String} :
    mapLines back (mapLines edit text) = text ↔
      ∀ line ∈ lines text, ∀ rest, line ≠ new ++ rest := by
  rw [mapLines_mapLines h.keepsLines,
    Text.mapLines_eq_self_iff (hback.keepsLines.comp h.keepsLines)]
  exact forall₂_congr fun line _ => h.back_edit_eq_self_iff hback

end Restarts

end WebIdl.Text
