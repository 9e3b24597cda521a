import WebIdl.Directive
import WebIdl.Proofs.Text.Restart

/-!
# Masking and unmasking directives

Masking and unmasking are edits of the same kind, in opposite directions: the one puts `//#` in the
place of a `#` at the start of a line, the other puts `#` in the place of `//#`.  Unmasking takes
masking back except on the lines that looked masked before (`unmask_mask_eq_iff`), and masking takes
unmasking back except on lines that are directives (`mask_unmask_eq_iff`).  What has been masked,
unmasked and masked again is what it was after the first time, collisions or not.
-/

namespace WebIdl.Directive

open WebIdl.Text

/-! ## The two edits -/

theorem restarts_maskLine : Restarts ['#'] ['/', '/', '#'] maskLine where
  restarted line := by
    unfold maskLine
    split
    · exact Or.inl ⟨_, rfl, rfl⟩
    · rename_i h
      exact Or.inr ⟨fun rest hline => h rest hline, rfl⟩
  apart rest tail := by simp
  newline_notMem := by decide

theorem restarts_unmaskLine : Restarts ['/', '/', '#'] ['#'] unmaskLine where
  restarted line := by
    unfold unmaskLine
    split
    · exact Or.inl ⟨_, rfl, rfl⟩
    · rename_i h
      exact Or.inr ⟨fun rest hline => h rest hline, rfl⟩
  apart rest tail := by simp
  newline_notMem := by decide

theorem isMasked_eq_false_iff {line : List Char} :
    isMasked line = false ↔ ∀ rest, line ≠ ['/', '/', '#'] ++ rest := by
  unfold isMasked
  split <;> simp_all

/-! ## Whole texts -/

/-- No line of the text is a directive. -/
def Masked (text : String) : Prop :=
  ∀ line ∈ lines text, ∀ rest, line ≠ '#' :: rest

theorem masked_mask (text : String) : Masked (mask text) :=
  fun _ hline => restarts_maskLine.ne_of_mem_lines hline

/-- Masking takes unmasking back exactly on a text without directives. -/
theorem mask_unmask_eq_iff {text : String} : mask (unmask text) = text ↔ Masked text :=
  restarts_unmaskLine.back_eq_self_iff restarts_maskLine

theorem mask_unmask_mask (text : String) : mask (unmask (mask text)) = mask text :=
  mask_unmask_eq_iff.mpr (masked_mask text)

theorem collides_eq_false_iff {text : String} :
    collides text = false ↔ ∀ line ∈ lines text, ∀ rest, line ≠ ['/', '/', '#'] ++ rest := by
  simp only [collides, List.any_eq_false, Bool.not_eq_true, isMasked_eq_false_iff]

/-- Unmasking takes masking back exactly if no line looked masked before. -/
theorem unmask_mask_eq_iff {text : String} :
    unmask (mask text) = text ↔ collides text = false :=
  (restarts_maskLine.back_eq_self_iff restarts_unmaskLine).trans collides_eq_false_iff.symm

/-- Masking and unmasking, on every text.  Unmasking takes masking back exactly if no line looked
masked before, and masking takes unmasking back exactly if no line was a directive.  What has been
masked and unmasked is masked to the same text as before, and to do either twice is to do it once.
Both keep the number of lines, and line by line they change nothing but the start of those that
begin with `#` and with `//#`. -/
theorem mask_and_unmask (text : String) :
    (unmask (mask text) = text ↔ collides text = false) ∧
      mask (unmask (mask text)) = mask text ∧
      mask (mask text) = mask text ∧
      unmask (unmask text) = unmask text ∧
      (mask (unmask text) = text ↔ Masked text) ∧
      (lines (mask text)).length = (lines text).length ∧
      (lines (unmask text)).length = (lines text).length ∧
      List.Forall₂ (Restarted ['#'] ['/', '/', '#']) (lines text) (lines (mask text)) ∧
      List.Forall₂ (Restarted ['/', '/', '#'] ['#']) (lines text) (lines (unmask text)) := by
  have hmask := restarts_maskLine.forall₂_lines text
  have hunmask := restarts_unmaskLine.forall₂_lines text
  refine ⟨unmask_mask_eq_iff, mask_unmask_mask text, ?_, ?_, mask_unmask_eq_iff, ?_, ?_,
    hmask, hunmask⟩
  · exact restarts_maskLine.mapLines_mapLines_self text
  · exact restarts_unmaskLine.mapLines_mapLines_self text
  · exact hmask.length_eq.symm
  · exact hunmask.length_eq.symm

/-- A directive, a line that looks like a masked one, and two lines that only resemble them. -/
example : mask "#a\r\n//#b\n///#c\n #d" = "//#a\r\n//#b\n///#c\n #d" ∧
    unmask "//#a\r\n//#b\n///#c\n #d" = "#a\r\n#b\n///#c\n #d" := by
  decide +kernel

end WebIdl.Directive
